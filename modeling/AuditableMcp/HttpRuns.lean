import AuditableMcp.HttpRounds
import AuditableMcp.Reference
/-!
# Every run of an HTTP entry

Each act keeps what `Kept` says, so every state of a run has it (`kept_run`). From it: the registry (`registry_kept`), the
rounds, which are resumed once and by their own caller (`rounds_once`), and the end of a retry that was not delivered
(`retry_ends`).
-/
namespace AuditableMcp

open JsonValue

namespace HttpEntry

variable {W : World} {C : HttpConfig} {s s' : HttpEntry W}

/-! ## The acts -/

/-- What a connection is written to, by a serving or not, where it takes it. -/
theorem enter_cases (c : Nat) (frame : Frame) (requestId : RequestId) (origin : Origin) (accepts : Bool)
    (s : HttpEntry W) :
    s.enter c frame requestId origin accepts = (s, none) ∧ (s.connections c).closing ≠ none ∨
      ∃ entered id, (∀ C, s.Kept C → entered.Kept C) ∧ entered.servings = s.servings ∧
        entered.connectionCount = s.connectionCount ∧
        (s.enter c frame requestId origin accepts = (entered, none) ∨
          s.enter c frame requestId origin accepts =
            ({ entered with log := entered.log ++ [⟨c, origin, frame.withId (.int id)⟩] }, some id)) := by
  unfold HttpEntry.enter
  split
  · next hclosed =>
    refine .inl ⟨rfl, fun hopen => ?_⟩
    rw [CallConnection.closed, hopen] at hclosed
    cases hclosed
  dsimp only
  obtain ⟨sessions, heq, -, -⟩ := use_eq c (s.updateConnection c (·.enter requestId))
  have hentered : ∀ C, s.Kept C → ((s.updateConnection c (·.enter requestId)).use c).Kept C := fun C h =>
    (h.updateConnection (CallConnection.same_enter requestId) ((h.registry.counted c).enter requestId)).use c
  cases accepts with
  | false =>
    refine .inr ⟨_, (s.connections c).nextId + 1, fun C h => (hentered C h).leave c _, ?_, ?_, .inl rfl⟩ <;> rw [heq] <;> rfl
  | true => 
    refine .inr ⟨_, ((s.connections c).nextId + 1 : Nat), hentered, ?_, ?_, .inr rfl⟩ <;> rw [heq] <;> rfl

theorem close_servings (why : Why) (c : Nat) (s : HttpEntry W) : (s.close why c).servings = s.servings := by
  obtain ⟨-, heq⟩ | ⟨-, heq⟩ := close_cases why c s <;> rw [heq]
  rfl

theorem not_done_of_undecided {stage : Stage} (h : stage.undecided = true) : stage ≠ .done := fun hdone => by
  rw [hdone] at h
  cases h

/-- A letter of a serving that is no retry. -/
theorem Kept.posted (h : s.Kept C) {k : Nat} (hbusy : (s.servings k).stage ≠ .done) {l : Letter}
    (hconnection : (s.servings k).connection = l.connection)
    (hopening : l.origin = .opening k → (s.servings k).purpose = .opening) (hretry : ∀ token, l.origin ≠ .retry k token) :
    s.Posted l k :=
  ⟨h.started hbusy, h.written.servings k hbusy, hconnection, hopening, fun token htoken => absurd htoken (hretry token)⟩

theorem Kept.found (h : s.Kept C) {k : Nat} (hundecided : (s.servings k).stage.undecided = true) (schema : Option Json) :
    (s.found k schema).Kept C := by
  have hread : (s.updateConnection (s.servings k).connection (·.schemaRead schema)).Kept C :=
    h.updateConnection ⟨rfl, rfl, rfl, rfl, rfl, rfl⟩ ⟨(h.registry.counted _).1, (h.registry.counted _).2⟩
  exact hread.setStage (not_done_of_undecided hundecided) (fun _ => hundecided) (fun _ hstage => (by cases hstage))
    fun _ _ _ => .inl rfl

theorem Kept.readPage (h : s.Kept C) {k page : Nat} {seen : List Str} {answer : Frame}
    (hundecided : (s.servings k).stage.undecided = true) (hread : s.readPage k page seen answer = some s') :
    s'.Kept C := by
  unfold HttpEntry.readPage at hread
  cases answer with
  | response id result =>
    obtain ⟨tools, -, rfl⟩ := Option.map_eq_some_iff.1 hread
    split
    · exact h.found hundecided _
    split
    · split
      · exact h.found hundecided _
      · exact h.setStage (not_done_of_undecided hundecided) (fun _ => hundecided) (fun _ hstage => (by cases hstage))
          fun _ _ _ => .inl rfl
    · exact h.found hundecided _
  | _ =>
    obtain rfl := Option.some.inj hread
    exact h.found hundecided _

/-- What is written for a retry carries the `requestState` of its round. -/
theorem stateIn_frameFor {x : Serving} {call : CallConnection W} {token : Str} {own : Option Json}
    (hpurpose : x.purpose = .retry token own) (hcaller : OwnCaller x.post call token own) (id : RequestId) :
    stateIn ((frameFor x).withId id) = some (own.getD (.str token)) := by
  unfold frameFor
  rw [hpurpose]
  cases own with
  | some o =>
    simp [Post.requestWith, Frame.withId, stateIn, get_assign]
  | none =>
    obtain ⟨state, hstate, htoken⟩ := Option.bind_eq_some_iff.1 hcaller.token
    have hget := (Option.filter_eq_some_iff.1 hstate).1
    have hstr : state = .str token := by
      cases state with
      | str t =>
        have hsome := (Option.ite_none_right_eq_some.1 htoken).2
        rw [Option.some.inj hsome]
      | _ => cases htoken
    rw [← hstr, Option.getD_none]
    exact hget

theorem Kept.proceed (h : s.Kept C) {k : Nat} {accepts : Bool} (hact : s.proceed C k accepts = some s') :
    s'.Kept C := by
  unfold HttpEntry.proceed at hact
  dsimp only at hact
  cases hstage : (s.servings k).stage with
  | checking page cursor seen =>
    have hundecided : (s.servings k).stage.undecided = true := by rw [hstage]; rfl
    rw [hstage] at hact
    dsimp only at hact
    obtain ⟨heq, -⟩ | ⟨entered, id, hkept, hservings, hcount, heq | heq⟩ := enter_cases (s.servings k).connection
      ((s.servings k).post.listing page cursor) (.int page) (.listing k) accepts s <;> rw [heq] at hact <;>
      obtain rfl := Option.some.inj hact
    · exact h.found hundecided none
    · exact (hkept C h).found (hservings ▸ hundecided) none
    · have hundecided' : (entered.servings k).stage.undecided = true := hservings ▸ hundecided
      refine Kept.setStage ((hkept C h).log rfl ?_ fun j hj => ?_) (not_done_of_undecided hundecided')
        (fun _ => hundecided') (fun _ hstage => (by cases hstage)) fun _ _ _ => .inl rfl
      · rw [hcount]
        exact (h.written.servings k (not_done_of_undecided hundecided)).connection
      · obtain rfl := Option.some.inj hj
        exact (hkept C h).posted (not_done_of_undecided hundecided') (by rw [hservings]) (fun ho => (by cases ho))
          fun _ ho => by cases ho
  | judging =>
    have hundecided : (s.servings k).stage.undecided = true := by rw [hstage]; rfl
    have hserves := h.written.servings k (not_done_of_undecided hundecided)
    rw [hstage] at hact
    dsimp only at hact
    split at hact
    · cases hpurpose : (s.servings k).purpose with
      | opening =>
        rw [hpurpose] at hact
        obtain rfl := Option.some.inj hact
        exact (h.close_ended _).turnAway (by rwa [close_servings])
      | retry token own =>
        rw [hpurpose] at hact
        obtain rfl := Option.some.inj hact
        exact h.turnAway hundecided
    obtain ⟨heq, -⟩ | ⟨entered, id, hkept, hservings, hcount, heq | heq⟩ := enter_cases (s.servings k).connection
      (frameFor (s.servings k)) (s.servings k).post.id (originFor k (s.servings k)) accepts s <;> rw [heq] at hact <;>
      obtain rfl := Option.some.inj hact
    · exact h.turnAway hundecided
    · exact (hkept C h).turnAway (hservings ▸ hundecided)
    · have hundecided' : (entered.servings k).stage.undecided = true := hservings ▸ hundecided
      rw [← hservings]
      cases hpurpose : (entered.servings k).purpose with
      | opening =>
        have horigin : originFor k (entered.servings k) = .opening k := by rw [originFor, hpurpose]
        rw [horigin]
        refine Kept.setStage ((hkept C h).log rfl ?_ fun j hj => ?_) (not_done_of_undecided hundecided')
          (fun hdecided => (by cases hdecided)) (fun _ _ => hpurpose)
          fun t o ht => (by cases hpurpose.symm.trans ht.1)
        · rw [hservings, hcount]
          exact hserves.connection
        · obtain rfl := Option.some.inj hj
          exact (hkept C h).posted (not_done_of_undecided hundecided') rfl (fun _ => hpurpose) fun _ ho => by cases ho
      | retry token own =>
        have horigin : originFor k (entered.servings k) = .retry k token := by rw [originFor, hpurpose]
        obtain ⟨-, hcaller⟩ := ((hkept C h).written.servings k (not_done_of_undecided hundecided')).retry token own hpurpose
        rw [horigin]
        exact (hkept C h).speak ⟨hpurpose, hundecided'⟩ (stateIn_frameFor hpurpose hcaller _) id
  | _ =>
    rw [hstage] at hact
    cases hact

/-- A serving whose request was written ends. -/
theorem Kept.ends (h : s.Kept C) {k : Nat} {id : Int} (hstage : (s.servings k).stage = .responding id) :
    (s.setStage k .done).Kept C := by
  refine h.setStage (fun hdone => ?_) (fun hdone => (by cases hdone)) (fun _ hdone => (by cases hdone))
    fun token own hhand => ?_
  · rw [hstage] at hdone
    cases hdone
  · rw [Serving.InHand, hstage] at hhand
    cases hhand.2

theorem Kept.answered (h : s.Kept C) {k : Nat} (hact : s.answered k = some s') : s'.Kept C := by
  unfold HttpEntry.answered at hact
  dsimp only at hact
  cases hstage : (s.servings k).stage with
  | listing id page seen =>
    have hundecided : (s.servings k).stage.undecided = true := by rw [hstage]; rfl
    rw [hstage] at hact
    obtain ⟨answer, -, hread⟩ := Option.bind_eq_some_iff.1 hact
    exact (h.leave _ id).readPage hundecided hread
  | responding id =>
    have hbusy : (s.servings k).stage ≠ .done := by rw [hstage]; exact fun hdone => by cases hdone
    rw [hstage] at hact
    obtain ⟨answer, -, rfl⟩ := Option.map_eq_some_iff.1 hact
    have hleft : ((s.leave (s.servings k).connection id).setStage k .done).Kept C := (h.leave _ id).ends hstage
    split
    · exact hleft.close_ended _
    · exact hleft
  | _ =>
    rw [hstage] at hact
    cases hact

theorem Kept.timeout (h : s.Kept C) {k : Nat} (hact : s.timeout k = some s') : s'.Kept C := by
  unfold HttpEntry.timeout at hact
  dsimp only at hact
  cases hstage : (s.servings k).stage with
  | listing id page seen =>
    have hundecided : (s.servings k).stage.undecided = true := by rw [hstage]; rfl
    rw [hstage] at hact
    obtain rfl := Option.some.inj hact
    exact (h.leave _ id).found hundecided none
  | _ =>
    rw [hstage] at hact
    cases hact

theorem Kept.disconnect (h : s.Kept C) {k : Nat} {accepts : Bool} (hact : s.disconnect k accepts = some s') :
    s'.Kept C := by
  unfold HttpEntry.disconnect at hact
  dsimp only at hact
  cases hstage : (s.servings k).stage with
  | responding id =>
    have hbusy : (s.servings k).stage ≠ .done := by rw [hstage]; exact fun hdone => by cases hdone
    have hended : ∀ r : HttpEntry W, r.Kept C → r.servings = s.servings →
        (((r.close .ended (s.servings k).connection).leave (s.servings k).connection id).setStage k .done).Kept C := by
      intro r hr hservings
      have hstill : ((r.close .ended (s.servings k).connection).servings k).stage = .responding id := by
        rw [close_servings, hservings, hstage]
      exact ((hr.close_ended (s.servings k).connection).leave (s.servings k).connection id).ends hstill
    rw [hstage] at hact
    obtain rfl := Option.some.inj hact
    split
    · exact hended s h rfl
    · refine hended _ (h.log rfl (h.written.servings k hbusy).connection fun j hj => ?_) rfl
      obtain rfl := Option.some.inj hj
      exact h.posted hbusy rfl (fun ho => (by cases ho)) fun _ ho => by cases ho
  | _ =>
    rw [hstage] at hact
    cases hact

theorem Kept.abort (h : s.Kept C) {k : Nat} (hact : s.abort k = some s') : s'.Kept C := by
  unfold HttpEntry.abort at hact
  dsimp only at hact
  have hhand : ∀ token own, (s.servings k).InHand token own →
      (s.connections (s.servings k).connection).closing ≠ none ∨ token ∈ s.lost ++
        (lostWith (s.servings k) (s.connections (s.servings k).connection)).toList := by
    intro token own hk
    cases hclosing : (s.connections (s.servings k).connection).closing with
    | some x => exact .inl fun hnone => by cases hnone
    | none =>
      refine .inr (List.mem_append_right _ ?_)
      simp [lostWith, hk.1, hk.2, CallConnection.closed, hclosing]
  have hkept : ({ s with
      lost := s.lost ++ (lostWith (s.servings k) (s.connections (s.servings k).connection)).toList } : HttpEntry W).Kept C :=
    h.of_same (h.registry.of_eq rfl rfl rfl rfl) (fun _ => .refl) rfl rfl rfl rfl rfl (List.subset_append_left _ _)
  have hdone : ∀ r : HttpEntry W, r.Kept C → r.servings = s.servings →
      (∀ c, (r.connections c).closing = (s.connections c).closing) →
      r.lost = s.lost ++ (lostWith (s.servings k) (s.connections (s.servings k).connection)).toList →
      (s.servings k).stage ≠ .done → (r.setStage k .done).Kept C := by
    intro r hr hservings hclosing hlost hbusy
    refine hr.setStage (hservings ▸ hbusy) (fun hdone => (by cases hdone)) (fun _ hdone => (by cases hdone))
      fun token own hk => .inr ?_
    rw [hservings] at hk ⊢
    rw [hclosing, hlost]
    exact hhand token own hk
  cases hstage : (s.servings k).stage with
  | listing id _ _ | responding id =>
    have hbusy : (s.servings k).stage ≠ .done := by rw [hstage]; exact fun hdone => by cases hdone
    rw [hstage] at hact
    obtain rfl := Option.some.inj hact
    refine hdone _ (hkept.leave _ id) rfl (fun c => ?_) rfl hbusy
    exact (same_updateConnection (CallConnection.same_leave id) c).closing
  | checking _ _ _ | judging =>
    have hbusy : (s.servings k).stage ≠ .done := by rw [hstage]; exact fun hdone => by cases hdone
    rw [hstage] at hact
    obtain rfl := Option.some.inj hact
    exact hdone _ hkept rfl (fun _ => rfl) rfl hbusy
  | done =>
    rw [hstage] at hact
    cases hact

theorem Kept.noteRound (h : s.Kept C) {c : Nat} {frame : Frame} {secret : Str} (hlt : c < s.connectionCount)
    (hfresh : (roundOf C frame secret).all (fun r => !s.issued.any (·.token == r.1)) = true) :
    (s.noteRound C c frame secret).1.Kept C := by
  unfold HttpEntry.noteRound
  split
  · exact h
  next hclosed =>
  cases hround : roundOf C frame secret with
  | none => exact h
  | some round =>
    obtain ⟨token, own⟩ := round
    rw [hround] at hfresh
    have hnew : ∀ j ∈ s.issued, j.token ≠ token := by simpa using hfresh
    have hopen : (s.connections c).closing = none := by simpa [CallConnection.closed] using hclosed
    exact h.issue hlt hopen hnew

/-- What the tool writes. -/
theorem Kept.readTool (h : s.Kept C) {c : Nat} {frame : Frame} {secret : Str} {accepts : Bool}
    (hlt : c < s.connectionCount) (hfresh : fresh C s (.tool c frame secret accepts) = true) :
    (s.readTool C c frame secret accepts).Kept C := by
  have hnoted : ∀ id sent, ((s.noteRound C c frame secret).1.updateConnection c (·.answer id sent)).Kept C :=
    fun id sent => (h.noteRound hlt hfresh).updateConnection (CallConnection.same_answer id sent)
      (((h.noteRound hlt hfresh).registry.counted c).answer id sent)
  unfold HttpEntry.readTool
  cases frame with
  | notification _ _ => exact h
  | request id _ _ =>
    dsimp only
    split
    · exact h
    · exact h.log rfl hlt fun k hk => by cases hk
  | response id result | error id _ _ =>
    dsimp only
    split
    · exact hnoted _ _
    · exact h.noteRound hlt hfresh

theorem Kept.shutdown (h : s.Kept C) (connections : List Nat) :
    (connections.foldl (fun s c => s.close .ended c) s).Kept C := by
  induction connections generalizing s with
  | nil => exact h
  | cons c connections ih => exact ih (h.close_ended c)

theorem kept_step {a : Act W} (h : s.Kept C) (hfresh : fresh C s a = true) (hact : step C s a = some s') :
    s'.Kept C := by
  cases a with
  | post p =>
    obtain rfl := Option.some.inj hact
    exact h.post p
  | proceed k accepts => exact h.proceed hact
  | answered k => exact h.answered hact
  | timeout k => exact h.timeout hact
  | disconnect k accepts => exact h.disconnect hact
  | abort k => exact h.abort hact
  | tool c frame secret accepts =>
    obtain ⟨hlt, hact⟩ := Option.ite_none_right_eq_some.1 hact
    obtain rfl := Option.some.inj hact
    exact h.readTool hlt hfresh
  | seam c seam =>
    obtain ⟨-, hact⟩ := Option.ite_none_right_eq_some.1 hact
    obtain rfl := Option.some.inj hact
    exact h.updateConnection ⟨rfl, rfl, rfl, rfl, rfl, rfl⟩ ⟨(h.registry.counted c).1, (h.registry.counted c).2⟩
  | expire c =>
    obtain ⟨hidle, hact⟩ := Option.ite_none_left_eq_some.1 hact
    obtain rfl := Option.some.inj hact
    rw [Bool.or_eq_true, not_or, Bool.not_eq_true, Bool.not_eq_true] at hidle
    exact h.close fun _ => ⟨fun hroom => (by cases hroom), fun _ => hidle.2⟩
  | ends c =>
    obtain ⟨-, hact⟩ := Option.ite_none_right_eq_some.1 hact
    obtain rfl := Option.some.inj hact
    exact h.close_ended c
  | shutdown =>
    obtain rfl := Option.some.inj hact
    have hstopped : ({ s with isRunning := false } : HttpEntry W).Kept C :=
      h.of_same (h.registry.of_eq rfl rfl rfl rfl) (fun _ => .refl) rfl rfl rfl rfl rfl (List.Subset.refl _)
    exact hstopped.shutdown _

theorem kept_start : (start : HttpEntry W).Kept C where
  registry := registry_start
  written := ⟨fun _ hi => (by cases hi), fun _ _ => rfl, fun _ hbusy => absurd rfl hbusy, fun _ hl => (by cases hl)⟩
  places := ⟨.nil, fun _ _ _ _ => rfl, fun _ _ ht => (by cases ht), fun _ _ _ hk => (by cases hk.1),
    fun _ _ _ _ _ hk => (by cases hk.1), fun _ ht => (by cases ht), .nil⟩
  answering _ _ _ _ hstage := by cases hstage
  whereabouts _ hi := by cases hi

/-- The entry of every run is kept. -/
theorem kept_run (hrun : Runs.Run (step C) (fresh C) start s) : s.Kept C :=
  hrun.kept kept_start fun _ _ _ h hfresh hact => kept_step h hfresh hact

/-! ## A call, for examples -/

def sampleHttp : HttpConfig where
  seam := sampleSeam
  maxHeldCalls := 2
  held_pos := by decide
  paramMismatch := fun _ _ _ => false

/-- A request of the sample call. -/
def samplePost (id : Int) (members : Members) : Post where
  id := .int id
  method := TOOLS_CALL_METHOD
  params := some (members ++ [(META, sampleMeta [])])
  affinity := some SAMPLE_SESSION
  principal := some (lit "alice")
  paramHeaders := []
  envelope := []
  admitted := true

def sampleToken : Str := ToolSeam.roundToken sampleSeam (lit "one")

/-- The call is opened, and a round of the tool's own goes out. -/
def sampleRound : List (Act reference) :=
  [.post (samplePost 1 []), .proceed 0 true,
    .tool 0 (.response (.int 1) [(RESULT_TYPE, .str INPUT_REQUIRED), (REQUEST_STATE, .str (lit "step two"))]) (lit "one")
      true, .answered 0]

/-- Its retry comes. -/
def sampleResumed : List (Act reference) :=
  sampleRound ++ [.post (samplePost 2 [(REQUEST_STATE, .str sampleToken)])]

/-! ## The rounds -/

/-- What was written into the calls' connections, and what is refused. -/
structure RoundsOnce (C : HttpConfig) (s : HttpEntry W) : Prop where
  /-- A token leads to one retry frame at most. -/
  once : s.spoken.Nodup
  /-- It goes into the connection the token was issued for, once, for that round's own caller, and with the
  `requestState` that the tool issued, where it issued one. -/
  own : ∀ l ∈ s.log, ∀ k token, l.origin = .retry k token → ∃ own,
    (∀ i, i ∈ s.issued ∧ i.token = token ↔ i = ⟨token, l.connection, own⟩) ∧
      OwnCaller (s.servings k).post (s.connections l.connection) token own ∧
      stateIn l.frame = some (own.getD (.str token))
  /-- A request with a `requestState` is never served as an opening. -/
  openings : ∀ k, (s.servings k).purpose = .opening → (s.servings k).stage ≠ .done →
    (s.servings k).post.requestState = none
  /-- What is written for an opening goes into the connection it opened itself. -/
  opened : ∀ l ∈ s.log, ∀ k, l.origin.serving = some k → (s.servings k).purpose = .opening →
    (s.connections l.connection).opener = k ∧ Opens (s.servings k).post (s.connections l.connection)
  /-- An opening for a session that is held is refused. -/
  held : ∀ p name, p.requestState = none → bodySession p.params = some name → (s.sessions.get name).isSome = true →
    s.post C p = s.refuse p
  /-- So is a retry of another principal's, or of a round of the tool's under another session. -/
  foreign : ∀ p token c, p.requestState.bind reserved = some token → s.tokens.get token = some c →
    ¬OwnCaller p (s.connections c) token ((s.connections c).ownRounds.get token) → s.post C p = s.refuse p

theorem post_held {p : Post} {name : Str} (hstate : p.requestState = none) (hname : bodySession p.params = some name)
    (hheld : (s.sessions.get name).isSome = true) : s.post C p = s.refuse p := by
  unfold HttpEntry.post
  split
  · rfl
  rw [hstate]
  dsimp only
  rw [hname]
  dsimp only
  rw [serveOpening, hheld, Bool.true_or, if_pos rfl]

theorem post_foreign {p : Post} {token : Str} {c : Nat} (htoken : p.requestState.bind reserved = some token)
    (hget : s.tokens.get token = some c)
    (hforeign : ¬OwnCaller p (s.connections c) token ((s.connections c).ownRounds.get token)) :
    s.post C p = s.refuse p := by
  unfold HttpEntry.post
  split
  · rfl
  obtain ⟨state, hstate, hreserved⟩ := Option.bind_eq_some_iff.1 htoken
  rw [hstate]
  dsimp only
  rw [hreserved]
  dsimp only
  unfold HttpEntry.serveRetry
  rw [hget]
  dsimp only
  split
  · rfl
  next hsession =>
  split
  · rfl
  next hprincipal =>
  rw [bne_iff_ne, not_not] at hprincipal
  refine absurd ⟨htoken, hprincipal, fun hown => ?_⟩ hforeign
  rw [hown, Bool.true_and, bne_iff_ne, not_not] at hsession
  exact hsession

/-- **Rounds are resumed once, by their own caller.** -/
theorem rounds_once (hrun : Runs.Run (step C) (fresh C) start s) : s.RoundsOnce C := by
  have h := kept_run hrun
  refine ⟨h.places.spokenOnce, fun l hl k token horigin => ?_, fun k hopening hbusy => ?_, fun l hl k hk hopening => ?_,
    fun _ _ => post_held, fun _ _ _ => post_foreign⟩
  · have hposted := (h.written.letters l hl).2 k (by rw [horigin]; rfl)
    obtain ⟨own, hpurpose, hstate⟩ := hposted.retry token horigin
    obtain ⟨hissued, hcaller⟩ := hposted.serves.retry token own hpurpose
    rw [hposted.connection] at hissued hcaller
    refine ⟨own, fun i => ⟨fun hi => h.places.issue_unique hi.1 hissued hi.2, ?_⟩, hcaller, hstate⟩
    rintro rfl
    exact ⟨hissued, rfl⟩
  · exact ((h.written.servings k hbusy).opening hopening).2.state
  · have hposted := (h.written.letters l hl).2 k hk
    have hopened := hposted.serves.opening hopening
    rwa [hposted.connection] at hopened

theorem rounds_once_resumed : ∃ s : HttpEntry reference,
    Runs.acts (step sampleHttp) (fresh sampleHttp) start (sampleResumed ++ [.proceed 1 true]) = some s ∧
      s.spoken = [sampleToken] ∧ s.RoundsOnce sampleHttp := by
  have hrun : (Runs.acts (step sampleHttp) (fresh sampleHttp) (start : HttpEntry reference)
      (sampleResumed ++ [.proceed 1 true])).map spoken = some [sampleToken] := by decide
  obtain ⟨s, hs, hspoken⟩ := Option.map_eq_some_iff.1 hrun
  exact ⟨s, hs, hspoken, rounds_once (Runs.run_of_acts hs)⟩

/-! ## The registry -/

/-- **The registry of an entry**, in every state of every run. -/
theorem registry_kept (hrun : Runs.Run (step C) (fresh C) start s) : s.Registry C := (kept_run hrun).registry

theorem registry_kept_round : ∃ s : HttpEntry reference,
    Runs.acts (step sampleHttp) (fresh sampleHttp) start sampleRound = some s ∧
      s.tokens.get sampleToken = some 0 ∧ s.Registry sampleHttp := by
  have hrun : (Runs.acts (step sampleHttp) (fresh sampleHttp) (start : HttpEntry reference) sampleRound).map
      (fun s => s.tokens.get sampleToken) = some (some 0) := by decide
  obtain ⟨s, hs, hget⟩ := Option.map_eq_some_iff.1 hrun
  exact ⟨s, hs, hget, registry_kept (Runs.run_of_acts hs)⟩

/-! ## How the serving of a retry ends -/

/-- The entry holds a round: in its index, its connection's tokens, and with the tool's own `requestState`. -/
structure Held (s : HttpEntry W) (token : Str) (c : Nat) (own : Option Json) : Prop where
  index : s.tokens.get token = some c
  tokens : token ∈ (s.connections c).tokens
  own : (s.connections c).ownRounds.get token = own

/-- The retry was written, or its connection is closed, or its round is still held. -/
def Delivered (s : HttpEntry W) (token : Str) (c : Nat) (own : Option Json) : Prop :=
  token ∈ s.spoken ∨ (s.connections c).closing ≠ none ∨ s.Held token c own

/-- The servings of retries that end with an act end so. -/
def EndsWell (s s' : HttpEntry W) : Prop :=
  ∀ k token own, (s.servings k).purpose = .retry token own → (s.servings k).stage ≠ .done →
    (s'.servings k).stage = .done → s'.Delivered token (s.servings k).connection own

/-- No retry is cut off, by an exception or a cancellation, before its frame is written and while its connection is
open. -/
def spares (s : HttpEntry W) : Act W → Bool
  | .abort k => (lostWith (s.servings k) (s.connections (s.servings k).connection)).isNone
  | _ => true

theorem Kept.held (h : s.Kept C) {token : Str} {c : Nat} {own : Option Json}
    (hopen : (s.connections c).closing = none) (hmem : token ∈ (s.connections c).tokens)
    (hissued : ⟨token, c, own⟩ ∈ s.issued) : s.Held token c own :=
  ⟨(h.registry.index token c).2 ⟨hopen, hmem⟩, hmem,
    congrArg Issue.own (h.places.issue_unique (h.places.listed c token hmem) hissued rfl)⟩

theorem setStage_servings {r : HttpEntry W} (hr : r.servings = s.servings) (k : Nat) (stage : Stage) :
    (r.setStage k stage).servings = (s.setStage k stage).servings := by
  rw [setStage, setStage, hr]

theorem turnAway_servings (k : Nat) (s : HttpEntry W) : (s.turnAway k).servings = (s.setStage k .done).servings := by
  unfold turnAway
  split
  · rfl
  · unfold restore
    split <;> rfl

theorem Kept.turnAway_delivered (h : s.Kept C) {k : Nat} {token : Str} {own : Option Json}
    (hhand : (s.servings k).InHand token own) : (s.turnAway k).Delivered token (s.servings k).connection own := by
  have hkept := h.turnAway hhand.2
  have hissued := (h.places.hand k token own hhand).1
  unfold HttpEntry.turnAway at hkept ⊢
  rw [hhand.1] at hkept ⊢
  dsimp only [restore] at hkept ⊢
  cases hclosing : (s.connections (s.servings k).connection).closing with
  | some x =>
    refine .inr (.inl ?_)
    rw [CallConnection.closed, hclosing, Option.isSome_some, if_pos rfl]
    change (s.connections (s.servings k).connection).closing ≠ none
    rw [hclosing]
    exact fun hnone => by cases hnone
  | none =>
    rw [CallConnection.closed, hclosing, Option.isSome_none, if_neg Bool.false_ne_true] at hkept ⊢
    exact .inr (.inr (hkept.held ((index_closing token _ own s _).trans hclosing) (index_tokens token _ own s).1 hissued))

theorem close_log (why : Why) (c : Nat) (s : HttpEntry W) : (s.close why c).log = s.log := by
  obtain ⟨-, heq⟩ | ⟨-, heq⟩ := close_cases why c s <;> rw [heq]
  rfl

/-! ### The acts, again -/

/-- An act that leaves a serving as it is ends none. -/
theorem Kept.endsWell_of_servings (h : s.Kept C) (hservings : ∀ k, k < s.servingCount → s'.servings k = s.servings k) :
    s.EndsWell s' := by
  intro k token own _ hbusy hdone
  rw [hservings k (h.started hbusy)] at hdone
  exact absurd hdone hbusy

/-- A serving that goes on does not end. -/
theorem endsWell_setStage {r : HttpEntry W} (hr : r.servings = s.servings) (k : Nat) (stage : Stage)
    (hstage : stage ≠ .done) : s.EndsWell (r.setStage k stage) := by
  intro j token own _ hbusy hdone
  by_cases hjk : j = k
  · subst hjk
    rw [setStage_self] at hdone
    exact absurd hdone hstage
  · rw [setStage_ne hjk, hr] at hdone
    exact absurd hdone hbusy

theorem endsWell_found {r : HttpEntry W} (hr : r.servings = s.servings) (k : Nat) (schema : Option Json) :
    s.EndsWell (r.found k schema) :=
  endsWell_setStage (r := r.updateConnection (r.servings k).connection (·.schemaRead schema)) hr k .judging
    fun hdone => by cases hdone

theorem endsWell_turnAway {r : HttpEntry W} (hkept : r.Kept C) (hr : r.servings = s.servings) {k : Nat}
    (hundecided : (s.servings k).stage.undecided = true) : s.EndsWell (r.turnAway k) := by
  intro j token own hpurpose hbusy hdone
  by_cases hjk : j = k
  · subst hjk
    rw [← hr] at hpurpose hundecided ⊢
    exact hkept.turnAway_delivered ⟨hpurpose, hundecided⟩
  · rw [turnAway_servings, setStage_ne hjk, hr] at hdone
    exact absurd hdone hbusy

/-- A serving that ends after its frame was written. -/
theorem Kept.endsWell_written (h : s.Kept C) {k : Nat} {id : Int} (hstage : (s.servings k).stage = .responding id)
    (hservings : s'.servings = (s.setStage k .done).servings) (hspoken : s.spoken ⊆ s'.spoken) : s.EndsWell s' := by
  intro j token own hpurpose hbusy hdone
  by_cases hjk : j = k
  · subst hjk
    exact .inl (hspoken (h.answering j id token own hstage hpurpose))
  · rw [hservings, setStage_ne hjk] at hdone
    exact absurd hdone hbusy

theorem Kept.proceed_ends (h : s.Kept C) {k : Nat} {accepts : Bool} (hact : s.proceed C k accepts = some s') :
    s.EndsWell s' := by
  unfold HttpEntry.proceed at hact
  dsimp only at hact
  cases hstage : (s.servings k).stage with
  | checking page cursor seen =>
    rw [hstage] at hact
    dsimp only at hact
    obtain ⟨heq, -⟩ | ⟨entered, id, -, hservings, -, heq | heq⟩ := enter_cases (s.servings k).connection
      ((s.servings k).post.listing page cursor) (.int page) (.listing k) accepts s <;> rw [heq] at hact <;>
      obtain rfl := Option.some.inj hact
    · exact endsWell_found rfl k none
    · exact endsWell_found hservings k none
    · refine endsWell_setStage ?_ k (.listing id page seen) fun hdone => (by cases hdone)
      exact hservings
  | judging =>
    have hundecided : (s.servings k).stage.undecided = true := by rw [hstage]; rfl
    rw [hstage] at hact
    dsimp only at hact
    split at hact
    · cases hpurpose : (s.servings k).purpose with
      | opening =>
        rw [hpurpose] at hact
        obtain rfl := Option.some.inj hact
        exact endsWell_turnAway (h.close_ended _) (close_servings _ _ _) hundecided
      | retry token own =>
        rw [hpurpose] at hact
        obtain rfl := Option.some.inj hact
        exact endsWell_turnAway h rfl hundecided
    obtain ⟨heq, -⟩ | ⟨entered, id, hkept, hservings, -, heq | heq⟩ := enter_cases (s.servings k).connection
      (frameFor (s.servings k)) (s.servings k).post.id (originFor k (s.servings k)) accepts s <;> rw [heq] at hact <;>
      obtain rfl := Option.some.inj hact
    · exact endsWell_turnAway h rfl hundecided
    · exact endsWell_turnAway (hkept C h) hservings hundecided
    · refine endsWell_setStage ?_ k (.responding id) fun hdone => (by cases hdone)
      exact hservings
  | _ =>
    rw [hstage] at hact
    cases hact

theorem readPage_ends {k page : Nat} {seen : List Str} {answer : Frame} {r : HttpEntry W}
    (hr : r.servings = s.servings) (hact : r.readPage k page seen answer = some s') : s.EndsWell s' := by
  have hfound : ∀ schema, s.EndsWell (r.found k schema) := endsWell_found hr k
  unfold HttpEntry.readPage at hact
  cases answer with
  | response id result =>
    obtain ⟨tools, -, rfl⟩ := Option.map_eq_some_iff.1 hact
    split
    · exact hfound _
    split
    · split
      · exact hfound _
      · exact endsWell_setStage hr k _ fun hdone => by cases hdone
    · exact hfound _
  | _ =>
    obtain rfl := Option.some.inj hact
    exact hfound _

theorem Kept.answered_ends (h : s.Kept C) {k : Nat} (hact : s.answered k = some s') : s.EndsWell s' := by
  unfold HttpEntry.answered at hact
  dsimp only at hact
  cases hstage : (s.servings k).stage with
  | listing id page seen =>
    rw [hstage] at hact
    obtain ⟨answer, -, hread⟩ := Option.bind_eq_some_iff.1 hact
    exact readPage_ends (r := s.leave (s.servings k).connection id) rfl hread
  | responding id =>
    rw [hstage] at hact
    obtain ⟨answer, -, rfl⟩ := Option.map_eq_some_iff.1 hact
    split
    · refine h.endsWell_written hstage (close_servings _ _ _) fun token htoken => ?_
      rw [spoken, close_log]
      exact htoken
    · exact h.endsWell_written hstage rfl (List.Subset.refl _)
  | _ =>
    rw [hstage] at hact
    cases hact

theorem timeout_ends {k : Nat} (hact : s.timeout k = some s') : s.EndsWell s' := by
  unfold HttpEntry.timeout at hact
  dsimp only at hact
  cases hstage : (s.servings k).stage with
  | listing id page seen =>
    rw [hstage] at hact
    obtain rfl := Option.some.inj hact
    exact endsWell_found (r := s.leave (s.servings k).connection id) rfl k none
  | _ =>
    rw [hstage] at hact
    cases hact

theorem Kept.disconnect_ends (h : s.Kept C) {k : Nat} {accepts : Bool} (hact : s.disconnect k accepts = some s') :
    s.EndsWell s' := by
  unfold HttpEntry.disconnect at hact
  dsimp only at hact
  cases hstage : (s.servings k).stage with
  | responding id =>
    rw [hstage] at hact
    obtain rfl := Option.some.inj hact
    have hended : ∀ r : HttpEntry W, r.servings = s.servings → s.spoken ⊆ r.spoken → s.EndsWell
        (((r.close .ended (s.servings k).connection).leave (s.servings k).connection id).setStage k .done) := by
      intro r hservings hspoken
      refine h.endsWell_written hstage ?_ fun token htoken => ?_
      · exact setStage_servings ((close_servings _ _ _).trans hservings) k .done
      · change token ∈ (r.close .ended (s.servings k).connection).spoken
        rw [spoken, close_log]
        exact hspoken htoken
    split
    · exact hended s rfl (List.Subset.refl _)
    · refine hended _ rfl fun token htoken => ?_
      rw [spoken, List.filterMap_append]
      exact List.mem_append_left _ htoken
  | _ =>
    rw [hstage] at hact
    cases hact

/-- A serving that is cut off ends as it should just when no token is lost with it. -/
theorem Kept.abort_ends (h : s.Kept C) {k : Nat} (hact : s.abort k = some s') :
    s.EndsWell s' ↔ s.spares (.abort k) = true := by
  unfold HttpEntry.abort at hact
  dsimp only at hact
  have hcut : ∀ r : HttpEntry W, r.servings = s.servings → r.spoken = s.spoken →
      (∀ c, (s.connections c).Same (r.connections c)) → (s.servings k).stage.undecided = true →
      (s.EndsWell (r.setStage k .done) ↔ s.spares (.abort k) = true) := by
    intro r hservings hspoken hsame hundecided
    have hself : ((r.setStage k .done).servings k).stage = .done := by rw [setStage_self]
    cases hpurpose : (s.servings k).purpose with
    | opening =>
      refine iff_of_true (fun j token own hretry hbusy hdone => ?_) (by simp [spares, lostWith, hpurpose])
      by_cases hjk : j = k
      · subst hjk
        cases hpurpose.symm.trans hretry
      · rw [setStage_ne hjk, hservings] at hdone
        exact absurd hdone hbusy
    | retry token own =>
      have hhand : (s.servings k).InHand token own := ⟨hpurpose, hundecided⟩
      cases hclosing : (s.connections (s.servings k).connection).closing with
      | some x =>
        refine iff_of_true (fun j t o hretry hbusy hdone => ?_)
          (by simp [spares, lostWith, hpurpose, CallConnection.closed, hclosing])
        by_cases hjk : j = k
        · subst hjk
          refine .inr (.inl ?_)
          change (r.connections (s.servings j).connection).closing ≠ none
          rw [(hsame _).closing, hclosing]
          exact fun hnone => by cases hnone
        · rw [setStage_ne hjk, hservings] at hdone
          exact absurd hdone hbusy
      | none =>
        refine iff_of_false (fun hends => ?_)
          (by simp [spares, lostWith, hpurpose, CallConnection.closed, hclosing, hundecided])
        obtain hmem | hclosed | hheld := hends k token own hpurpose (not_done_of_undecided hundecided) hself
        · have hold : token ∈ s.spoken := hspoken ▸ hmem
          exact (h.places.spoken token hold).2.2 k own hhand
        · exact hclosed ((hsame _).closing.trans hclosing)
        · have hmem : token ∈ (s.connections (s.servings k).connection).tokens := (hsame _).tokens ▸ hheld.tokens
          exact (h.places.hand k token own hhand).2 _ hmem
  cases hstage : (s.servings k).stage with
  | listing id _ _ =>
    rw [hstage] at hact
    obtain rfl := Option.some.inj hact
    refine hcut _ rfl rfl (same_updateConnection (s := s) (f := (·.leave id)) (CallConnection.same_leave id)) ?_
    rw [hstage]
    rfl
  | responding id =>
    rw [hstage] at hact
    obtain rfl := Option.some.inj hact
    refine iff_of_true (h.endsWell_written hstage rfl (List.Subset.refl _)) ?_
    cases hpurpose : (s.servings k).purpose <;> simp [spares, lostWith, hpurpose, hstage, Stage.undecided]
  | checking _ _ _ | judging =>
    rw [hstage] at hact
    obtain rfl := Option.some.inj hact
    refine hcut _ rfl rfl (fun _ => .refl) ?_
    rw [hstage]
    rfl
  | done =>
    rw [hstage] at hact
    cases hact

theorem close_servingCount (why : Why) (c : Nat) (s : HttpEntry W) : (s.close why c).servingCount = s.servingCount := by
  obtain ⟨-, heq⟩ | ⟨-, heq⟩ := close_cases why c s <;> rw [heq]
  rfl

theorem post_servings (p : Post) {k : Nat} (hk : k < s.servingCount) : (s.post C p).servings k = s.servings k := by
  have hserve : ∀ (x : Serving) (r : HttpEntry W), r.servings = s.servings → r.servingCount = s.servingCount →
      (r.serve x).servings k = s.servings k := by
    intro x r hservings hcount
    rw [serve_ne (by omega), hservings]
  have hrefuse : (s.refuse p).servings k = s.servings k := hserve _ s rfl rfl
  unfold HttpEntry.post
  split
  · exact hrefuse
  split
  · split
    · unfold HttpEntry.serveRetry
      split
      · exact hrefuse
      dsimp only
      split
      · exact hrefuse
      split
      · exact hrefuse
      · exact hserve _ _ rfl rfl
    · exact hrefuse
  split
  · unfold HttpEntry.serveOpening
    split
    · exact hrefuse
    cases hroom : s.makeRoom C with
    | none => exact hrefuse
    | some r =>
      have hr : r.servings = s.servings ∧ r.servingCount = s.servingCount := by
        unfold makeRoom at hroom
        split at hroom
        · obtain rfl := Option.some.inj hroom
          exact ⟨rfl, rfl⟩
        · obtain ⟨c, -, rfl⟩ := Option.map_eq_some_iff.1 hroom
          exact ⟨close_servings _ _ _, close_servingCount _ _ _⟩
      exact hserve _ _ hr.1 hr.2
  · exact hrefuse

theorem noteRound_servings (c : Nat) (frame : Frame) (secret : Str) (s : HttpEntry W) :
    (s.noteRound C c frame secret).1.servings = s.servings := by
  unfold HttpEntry.noteRound
  split
  · rfl
  · split <;> rfl

theorem readTool_servings (c : Nat) (frame : Frame) (secret : Str) (accepts : Bool) (s : HttpEntry W) :
    (s.readTool C c frame secret accepts).servings = s.servings := by
  unfold HttpEntry.readTool
  split
  · rfl
  · split <;> rfl
  · dsimp only
    split
    · exact noteRound_servings c _ secret s
    · exact noteRound_servings c _ secret s

theorem shutdown_servings (connections : List Nat) (s : HttpEntry W) :
    (connections.foldl (fun s c => s.close .ended c) s).servings = s.servings := by
  induction connections generalizing s with
  | nil => rfl
  | cons c connections ih => rw [List.foldl_cons, ih, close_servings]

/-- **A retry that was not delivered stays retriable**, in every state of every run, just when no serving of it is cut
off before its frame is written. -/
theorem retry_ends {a : Act W} (hrun : Runs.Run (step C) (fresh C) start s) (hact : step C s a = some s') :
    s.EndsWell s' ↔ s.spares a = true := by
  have h := kept_run hrun
  cases a with
  | abort k => exact h.abort_ends hact
  | post p =>
    obtain rfl := Option.some.inj hact
    exact iff_of_true (h.endsWell_of_servings fun k hk => post_servings p hk) rfl
  | proceed k accepts => exact iff_of_true (h.proceed_ends hact) rfl
  | answered k => exact iff_of_true (h.answered_ends hact) rfl
  | timeout k => exact iff_of_true (timeout_ends hact) rfl
  | disconnect k accepts => exact iff_of_true (h.disconnect_ends hact) rfl
  | tool c frame secret accepts =>
    obtain ⟨-, hact⟩ := Option.ite_none_right_eq_some.1 hact
    obtain rfl := Option.some.inj hact
    exact iff_of_true (h.endsWell_of_servings fun k _ => by rw [readTool_servings]) rfl
  | seam c seam =>
    obtain ⟨-, hact⟩ := Option.ite_none_right_eq_some.1 hact
    obtain rfl := Option.some.inj hact
    exact iff_of_true (h.endsWell_of_servings fun _ _ => rfl) rfl
  | expire c =>
    obtain ⟨-, hact⟩ := Option.ite_none_left_eq_some.1 hact
    obtain rfl := Option.some.inj hact
    exact iff_of_true (h.endsWell_of_servings fun k _ => by rw [close_servings]) rfl
  | ends c =>
    obtain ⟨-, hact⟩ := Option.ite_none_right_eq_some.1 hact
    obtain rfl := Option.some.inj hact
    exact iff_of_true (h.endsWell_of_servings fun k _ => by rw [close_servings]) rfl
  | shutdown =>
    obtain rfl := Option.some.inj hact
    exact iff_of_true (h.endsWell_of_servings fun k _ => by rw [shutdown_servings]) rfl

/-- The connection is not reading, and the round is still held. -/
theorem retry_ends_unread : ∃ s s' : HttpEntry reference,
    Runs.acts (step sampleHttp) (fresh sampleHttp) start sampleResumed = some s ∧
      step sampleHttp s (.proceed 1 false) = some s' ∧ s'.tokens.get sampleToken = some 0 ∧
      (s.EndsWell s' ↔ s.spares (.proceed 1 false) = true) := by
  have hrun : ((Runs.acts (step sampleHttp) (fresh sampleHttp) (start : HttpEntry reference) sampleResumed).bind
      fun s => (step sampleHttp s (.proceed 1 false)).map fun s' => s'.tokens.get sampleToken) = some (some 0) := by
    decide
  obtain ⟨s, hs, hstep⟩ := Option.bind_eq_some_iff.1 hrun
  obtain ⟨s', hs', hget⟩ := Option.map_eq_some_iff.1 hstep
  exact ⟨s, s', hs, hs', hget, retry_ends (Runs.run_of_acts hs) hs'⟩

/-- The retry carries arguments, so the tool's schema is asked for. -/
def sampleChecked : List (Act reference) :=
  sampleRound ++ [.post (samplePost 2 [(REQUEST_STATE, .str sampleToken), (NAME, .str (lit "charge")),
    (ARGUMENTS, .obj [(lit "amount", .int 5)])]), .proceed 1 true]

/-- It is cancelled while it waits for the schema: its round is lost, and its connection open. -/
theorem cancelled_retry_lost : ∃ s s' : HttpEntry reference,
    Runs.Run (step sampleHttp) (fresh sampleHttp) start s ∧ step sampleHttp s (.abort 1) = some s' ∧
      (s'.connections 0).closing = none ∧ s'.tokens.get sampleToken = none ∧ ¬s.EndsWell s' := by
  have hrun : ((Runs.acts (step sampleHttp) (fresh sampleHttp) (start : HttpEntry reference) sampleChecked).bind
      fun s => (step sampleHttp s (.abort 1)).map fun s' => (s.servings 1, (s'.servings 1).stage,
        (s'.connections 0).closing, (s'.tokens.get sampleToken).isNone && s'.spoken.isEmpty)) =
      some (⟨samplePost 2 [(REQUEST_STATE, .str sampleToken), (NAME, .str (lit "charge")),
        (ARGUMENTS, .obj [(lit "amount", .int 5)])], 0, .retry sampleToken (some (.str (lit "step two"))),
        .listing 2 0 []⟩, .done, none, true) := by decide
  obtain ⟨s, hs, hstep⟩ := Option.bind_eq_some_iff.1 hrun
  obtain ⟨s', hs', hall⟩ := Option.map_eq_some_iff.1 hstep
  simp only [Prod.mk.injEq, Bool.and_eq_true, Option.isNone_iff_eq_none, List.isEmpty_iff] at hall
  obtain ⟨hserving, hdone, hclosing, hget, hspoken⟩ := hall
  refine ⟨s, s', Runs.run_of_acts hs, hs', hclosing, hget, fun hends => ?_⟩
  have hends := hends 1
  rw [hserving] at hends
  obtain hmem | hclosed | hheld := hends _ _ rfl (fun hnot => (by cases hnot)) hdone
  · rw [hspoken] at hmem
    cases hmem
  · exact hclosed hclosing
  · cases hget.symm.trans hheld.index

end HttpEntry

end AuditableMcp
