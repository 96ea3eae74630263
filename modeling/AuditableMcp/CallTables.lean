import AuditableMcp.Receiver
/-!
# The host's tables of calls

The receiver finds a call by the id the tool answers on and by the `requestState`s of the rounds it holds for the
client. A call in flight stands in the first table once, under its current id, and in the second under each state of
its own held set; an ended call stands in neither (`Indexed`). The close of its session is the last job its lane is
given, and it is given one (`Closes`). Here is what the operations on the tables keep of it (`Registered`): a call
opens, answers on another id, is retried, holds a round and ends, and holding evicts.
-/
namespace AuditableMcp

open JsonValue

/-! ## What stands for a call -/

def Job.closes : Job → Bool
  | .conclude _ | .close => true
  | _ => false

def Progress.isAbandoning : Progress → Bool
  | .abandoning _ _ => true
  | _ => false

def Progress.isClosing : Progress → Bool
  | .sealing _ true | .closing => true
  | _ => false

/-- Every job the call's lane was given, in order. -/
def HostCall.jobs (c : HostCall) : List Job := c.lane.taken ++ c.lane.queue

/-- The call's round is being abandoned, which queues its close at the end. -/
def HostCall.abandoning (c : HostCall) : Bool := c.lane.running.any Progress.isAbandoning

/-- The lane was given no close. -/
def HostCall.Unclosed (c : HostCall) : Prop := ∀ j ∈ c.jobs, j.closes = false

/-- The lane was given one close, behind all its other work. -/
def HostCall.ClosesLast (c : HostCall) : Prop :=
  ∃ earlier last, c.jobs = earlier ++ [last] ∧ last.closes = true ∧ ∀ j ∈ earlier, j.closes = false

/-- Where a call stands with its close. -/
structure HostCall.Closes (c : HostCall) : Prop where
  inFlight : c.ended = false → c.Unclosed
  ended : c.ended = true → c.abandoning = false → c.ClosesLast
  abandoning : c.abandoning = true → c.ended = true ∧ c.Unclosed
  closing : (∃ p, c.lane.running = some p ∧ p.isClosing = true) ∨ c.lane.closed = true → ∃ j ∈ c.lane.taken, j.closes = true

namespace HostCall

theorem Closes.queue {c : HostCall} {job : Job} (h : c.Closes) (hu : c.Unclosed) (hj : job.closes = false) :
    (c.queueJob job).Closes := by
  have hjobs : (c.queueJob job).jobs = c.jobs ++ [job] := by simp [jobs, queueJob]
  have hun : (c.queueJob job).Unclosed := by
    rw [Unclosed, hjobs]
    intro j hin
    rcases List.mem_append.1 hin with hin | hin
    · exact hu j hin
    · rwa [List.mem_singleton.1 hin]
  refine ⟨fun _ => hun, fun hended hab => ?_, fun hab => ⟨(h.abandoning hab).1, hun⟩, h.closing⟩
  obtain ⟨earlier, last, heq, hlast, -⟩ := h.ended hended hab
  have hnot := hu last (heq ▸ List.mem_append_right _ List.mem_cons_self)
  exact absurd hlast (Bool.eq_false_iff.1 hnot)

/-- A call in flight ends, and its close is queued. -/
theorem Closes.end {c : HostCall} {job : Job} (h : c.Closes) (hlive : c.ended = false) (hj : job.closes = true) :
    (c.detached.queueJob job).Closes := by
  have hlast : (c.detached.queueJob job).ClosesLast :=
    ⟨c.jobs, job, by simp [jobs, queueJob, detached], hj, h.inFlight hlive⟩
  refine ⟨fun hended => absurd hended (by simp [queueJob, detached]), fun _ _ => hlast, fun hab => ?_, h.closing⟩
  have hended := (h.abandoning hab).1
  rw [hlive] at hended
  cases hended

/-- A call in flight ends, and its close waits for the round in progress. -/
theorem Closes.abandon {c : HostCall} {message : Str} {work : RoundWork} (h : c.Closes) (hlive : c.ended = false) :
    (c.detached.await (some (.abandoning message work))).Closes where
  inFlight hended := absurd hended (by simp [await, detached])
  ended _ hab := absurd hab (by simp [HostCall.abandoning, HostCall.await, Progress.isAbandoning])
  abandoning _ := ⟨rfl, h.inFlight hlive⟩
  closing hc := by
    rcases hc with ⟨p, hp, hclosing⟩ | hc
    · obtain rfl := Option.some.inj hp
      cases hclosing
    · exact h.closing (.inr hc)

/-- The job in progress goes on, or is done. -/
theorem Closes.await {c : HostCall} {p : Option Progress} (h : c.Closes) (hab : p.any Progress.isAbandoning = c.abandoning)
    (hcl : ∀ q, p = some q → q.isClosing = true → ∃ j ∈ c.lane.taken, j.closes = true) : (c.await p).Closes where
  inFlight := h.inFlight
  ended hended hnot := h.ended hended (hab ▸ hnot)
  abandoning hp := h.abandoning (hab ▸ hp)
  closing hc := by
    rcases hc with ⟨q, hq, hclosing⟩ | hc
    · exact hcl q hq hclosing
    · exact h.closing (.inr hc)

theorem Closes.take {c : HostCall} {job : Job} {rest : List Job} (h : c.Closes) (hq : c.lane.queue = job :: rest) :
    (c.takeJob job rest).Closes := by
  have hjobs : (c.takeJob job rest).jobs = c.jobs := by simp [jobs, takeJob, hq]
  refine ⟨fun hended => ?_, fun hended hab => ?_, fun hab => ⟨(h.abandoning hab).1, ?_⟩, fun hc => ?_⟩
  · rw [Unclosed, hjobs]
    exact h.inFlight hended
  · rw [ClosesLast, hjobs]
    exact h.ended hended hab
  · rw [Unclosed, hjobs]
    exact (h.abandoning hab).2
  · obtain ⟨j, hin, hj⟩ := h.closing hc
    exact ⟨j, List.mem_append_left _ hin, hj⟩

/-- The round that is abandoned is over, and the close is queued. -/
theorem Closes.abandoned {c : HostCall} {p : Progress} (h : c.Closes) (hab : c.abandoning = true)
    (hp : p.isAbandoning = false) (hp' : p.isClosing = false) : ((c.queueJob .close).await (some p)).Closes := by
  obtain ⟨hended, hu⟩ := h.abandoning hab
  have hlast : ((c.queueJob .close).await (some p)).ClosesLast :=
    ⟨c.jobs, .close, by simp [jobs, queueJob, HostCall.await], rfl, hu⟩
  have hnot : ((c.queueJob .close).await (some p)).abandoning = false := hp
  refine ⟨fun hlive => ?_, fun _ _ => hlast, fun hab' => ?_, fun hc => ?_⟩
  · exact absurd (hended.symm.trans hlive) (by decide)
  · exact absurd (hnot.symm.trans hab') (by decide)
  · rcases hc with ⟨q, hq, hclosing⟩ | hc
    · obtain rfl := Option.some.inj hq
      exact absurd (hp'.symm.trans hclosing) (by decide)
    · exact h.closing (.inr hc)

/-- The session's close has been made. -/
theorem Closes.closeLane {c : HostCall} (h : c.Closes) (hr : c.lane.running = some .closing) :
    ({ c with lane := { c.lane with closed := true, running := none } } : HostCall).Closes where
  inFlight := h.inFlight
  ended hended _ := h.ended hended (by simp [HostCall.abandoning, hr, Progress.isAbandoning])
  abandoning hab := absurd hab (by simp [HostCall.abandoning])
  closing _ := h.closing (.inl ⟨_, hr, rfl⟩)

/-- A close that was taken up is the last job there was. -/
theorem Closes.queue_nil {c : HostCall} (h : c.Closes) (hj : ∃ j ∈ c.lane.taken, j.closes = true) : c.lane.queue = [] := by
  obtain ⟨j, hin, hj⟩ := hj
  have hnot : ¬ c.Unclosed := fun hu =>
    absurd ((hu j (List.mem_append_left _ hin)).symm.trans hj) (by decide)
  have hended : c.ended = true := Bool.eq_true_of_not_eq_false fun hlive => hnot (h.inFlight hlive)
  have hab : c.abandoning = false := Bool.eq_false_iff.2 fun hab => hnot (h.abandoning hab).2
  obtain ⟨earlier, last, heq, -, hearlier⟩ := h.ended hended hab
  -- Were a job behind it, the close would be among the earlier ones.
  rcases List.eq_nil_or_concat c.lane.queue with hnil | ⟨init, final, hfinal⟩
  · exact hnil
  · rw [jobs, hfinal, List.concat_eq_append, ← List.append_assoc] at heq
    obtain ⟨hinit, -⟩ := List.append_inj' heq rfl
    have hlast := hearlier j (hinit ▸ List.mem_append_left _ hin)
    exact absurd (hlast.symm.trans hj) (by decide)

/-- A lane that was given no close is open. -/
theorem Closes.isOpen {c : HostCall} (h : c.Closes) (hu : c.Unclosed) : c.lane.closed = false := by
  cases hc : c.lane.closed with
  | false => rfl
  | true =>
    obtain ⟨j, hin, hj⟩ := h.closing (.inr hc)
    exact absurd ((hu j (List.mem_append_left _ hin)).symm.trans hj) (by decide)

end HostCall

namespace Receiver

/-- A call that has not ended. -/
def Live (s : Receiver) (r : Nat) : Prop := r < s.allocated ∧ (s.heap r).ended = false

/-- The id a call in flight is found by. -/
def AnswersOn (s : Receiver) (r : Nat) (id : RequestId) : Prop := s.Live r ∧ (s.heap r).currentId = id

/-- The states of a call's held rounds. -/
def Holds (s : Receiver) (r : Nat) (state : Str) : Prop := s.Live r ∧ state ∈ (s.heap r).held

/-- The two tables hold what the calls say. -/
structure Indexed (s : Receiver) : Prop where
  calls : s.calls.Indexes id s.AnswersOn
  held : s.held.Indexes Prod.fst s.Holds
  cleared : ∀ r, (s.heap r).ended = true → (s.heap r).held = []
  issued : ∀ r, s.Live r → (s.heap r).currentId ∈ s.clientIds ∨ ∃ n < s.nextId, (s.heap r).currentId = newId n
  clients : ∀ id ∈ s.clientIds, id.isSeams = false

/-- Of the registry, the two states have the same. -/
structure SameTables (s s' : Receiver) : Prop where
  allocated : s'.allocated = s.allocated
  calls : s'.calls = s.calls
  held : ∀ state, s'.held.get state = s.held.get state
  nextId : s'.nextId = s.nextId
  clientIds : s'.clientIds = s.clientIds
  ended : ∀ r, (s'.heap r).ended = (s.heap r).ended
  currentId : ∀ r, (s'.heap r).currentId = (s.heap r).currentId
  heldBy : ∀ r, (s'.heap r).held = (s.heap r).held

theorem SameTables.live {s s' : Receiver} (h : SameTables s s') (r : Nat) : s'.Live r ↔ s.Live r := by
  rw [Live, Live, h.allocated, h.ended]

theorem Indexed.of_same {s s' : Receiver} (hi : Indexed s) (h : SameTables s s') : Indexed s' where
  calls r id := by
    rw [AnswersOn, h.calls, h.live, h.currentId]
    exact hi.calls r id
  held r state := by
    rw [Holds, h.held, h.live, h.heldBy]
    exact hi.held r state
  cleared r := by
    rw [h.ended, h.heldBy]
    exact hi.cleared r
  issued r hr := by
    rw [h.currentId, h.nextId, h.clientIds]
    exact hi.issued r ((h.live r).1 hr)
  clients := by
    rw [h.clientIds]
    exact hi.clients

/-- A call's fields besides are changed. -/
theorem sameTables_update {f : HostCall → HostCall} {r : Nat} {s : Receiver}
    (hended : (f (s.heap r)).ended = (s.heap r).ended) (hid : (f (s.heap r)).currentId = (s.heap r).currentId)
    (hheld : (f (s.heap r)).held = (s.heap r).held) : SameTables s (s.update r f) := by
  refine ⟨rfl, rfl, fun _ => rfl, rfl, rfl, fun k => ?_, fun k => ?_, fun k => ?_⟩ <;>
  · by_cases hk : k = r
    · subst hk
      simpa
    · rw [update_heap_ne hk]

theorem sameTables_dispatch (lane : Option Nat) (job : Job) (s : Receiver) : SameTables s (s.dispatch lane job) := by
  have hown : SameTables s { s with onOwn := s.onOwn ++ [job] } :=
    ⟨rfl, rfl, fun _ => rfl, rfl, rfl, fun _ => rfl, fun _ => rfl, fun _ => rfl⟩
  cases lane with
  | none => exact hown
  | some r =>
    unfold dispatch
    dsimp only
    split
    · exact hown
    · exact sameTables_update rfl rfl rfl

@[simp] theorem dispatch_held (lane : Option Nat) (job : Job) (s : Receiver) : (s.dispatch lane job).held = s.held := by
  cases lane with
  | none => rfl
  | some r =>
    unfold dispatch
    dsimp only
    split <;> rfl

/-! ## The operations on the tables -/

/-- Two calls in flight answer on two ids. -/
theorem Indexed.eq_of_currentId {s : Receiver} {r k : Nat} (hi : Indexed s) (hr : s.Live r) (hk : s.Live k)
    (h : (s.heap k).currentId = (s.heap r).currentId) : k = r :=
  hi.calls.unique ⟨hk, h⟩ ⟨hr, rfl⟩

/-- Two calls hold rounds under two states. -/
theorem Indexed.eq_of_held {s : Receiver} {r k : Nat} {state : Str} (hi : Indexed s) (hr : s.Live r) (hk : s.Live k)
    (h : state ∈ (s.heap r).held) (h' : state ∈ (s.heap k).held) : k = r :=
  hi.held.unique ⟨hk, h'⟩ ⟨hr, h⟩

theorem detach_heap (r k : Nat) (s : Receiver) :
    (s.detach r).heap k = if k = r then (s.heap r).detached else s.heap k := update_heap ..

theorem live_detach {r k : Nat} {s : Receiver} : (s.detach r).Live k ↔ s.Live k ∧ k ≠ r := by
  rw [Live, detach_heap]
  split
  · next hk => simp [hk, HostCall.detached]
  · next hk => exact ⟨fun h => ⟨h, hk⟩, fun h => h.1⟩

theorem Indexed.detach {s : Receiver} {r : Nat} (hi : Indexed s) (hr : s.Live r) : Indexed (s.detach r) where
  calls := by
    refine (hi.calls.pop (s.heap r).currentId).congr fun k id => ?_
    rw [AnswersOn, live_detach, detach_heap]
    by_cases hk : k = r
    · subst hk
      exact iff_of_false (fun h => h.1.2 rfl) fun h => h.1 h.2.2.symm
    · rw [if_neg hk]
      constructor
      · rintro ⟨⟨hlive, -⟩, rfl⟩
        exact ⟨fun heq => hk (hi.eq_of_currentId hr hlive heq), hlive, rfl⟩
      · rintro ⟨-, hlive, rfl⟩
        exact ⟨⟨hlive, hk⟩, rfl⟩
  held := by
    refine (hi.held.popAll (s.heap r).held).congr fun k state => ?_
    rw [Holds, live_detach, detach_heap]
    by_cases hk : k = r
    · subst hk
      exact iff_of_false (fun h => h.1.2 rfl) fun h => h.1 h.2.2
    · rw [if_neg hk]
      constructor
      · rintro ⟨⟨hlive, -⟩, hin⟩
        exact ⟨fun hin' => hk (hi.eq_of_held hr hlive hin' hin), hlive, hin⟩
      · rintro ⟨-, hlive, hin⟩
        exact ⟨⟨hlive, hk⟩, hin⟩
  cleared k h := by
    rw [detach_heap] at h ⊢
    split
    · rfl
    · next hk => exact hi.cleared k (by rwa [if_neg hk] at h)
  issued k h := by
    obtain ⟨hlive, hk⟩ := live_detach.1 h
    rw [detach_heap, if_neg hk]
    exact hi.issued k hlive
  clients := hi.clients

theorem rekey_heap (r k : Nat) (id : RequestId) (s : Receiver) :
    (s.rekey r id).heap k = if k = r then (s.heap r).keyed id else s.heap k := update_heap ..

theorem live_rekey {r k : Nat} {id : RequestId} {s : Receiver} : (s.rekey r id).Live k ↔ s.Live k := by
  rw [Live, rekey_heap]
  split
  · next hk =>
    subst hk
    rfl
  · rfl

/-- The call answers on an id that no call in flight has. -/
theorem Indexed.rekey {s : Receiver} {r : Nat} {id : RequestId} (hi : Indexed s) (hr : s.Live r)
    (hfree : s.calls.get id = none) (hid : id ∈ s.clientIds ∨ ∃ n < s.nextId, id = newId n) :
    Indexed (s.rekey r id) where
  calls := by
    refine ((hi.calls.pop (s.heap r).currentId).set id r).congr fun k a => ?_
    have hnot : ∀ k, ¬ s.AnswersOn k id := fun k h => by
      obtain ⟨_, hget, -⟩ := (hi.calls k id).1 h
      rw [hfree] at hget
      cases hget
    rw [AnswersOn, live_rekey, rekey_heap]
    by_cases hk : k = r
    · subst hk
      simp only [if_true, HostCall.keyed, AnswersOn]
      grind
    · rw [if_neg hk]
      have huniq := hi.eq_of_currentId (k := k) hr
      have hnotk := hnot k
      simp only [AnswersOn] at hnotk ⊢
      grind
  held := hi.held.congr fun k state => by
    rw [Holds, Holds, live_rekey, rekey_heap]
    split
    · next hk =>
      subst hk
      rfl
    · rfl
  cleared k h := by
    rw [rekey_heap] at h ⊢
    split
    · next hk =>
      subst hk
      exact hi.cleared k (by rwa [if_pos rfl] at h)
    · next hk => exact hi.cleared k (by rwa [if_neg hk] at h)
  issued k h := by
    rw [rekey_heap]
    split
    · exact hid
    · exact hi.issued k (live_rekey.1 h)
  clients := hi.clients

/-- A call opens under an id that no call in flight has. -/
theorem Indexed.openCall {s : Receiver} {id : RequestId} {params : Members} {session : Str} (hi : Indexed s)
    (hfree : s.calls.get id = none) (hid : id ∈ s.clientIds) : Indexed (s.openCall id params session).2 := by
  set c := HostCall.new id (carrying [(SESSION_ID, .str session)] params) session with hc
  have hheap : ∀ k, (s.openCall id params session).2.heap k = if k = s.allocated then c else s.heap k :=
    fun k => Function.update_apply ..
  have hfresh : ¬ s.Live s.allocated := fun h => Nat.lt_irrefl _ h.1
  have hlive : ∀ k, (s.openCall id params session).2.Live k ↔ s.Live k ∨ k = s.allocated := by
    intro k
    rw [Live, hheap]
    change k < s.allocated + 1 ∧ _ ↔ _
    by_cases hk : k = s.allocated
    · simp [hk, hc, HostCall.new]
    · rw [if_neg hk]
      constructor
      · rintro ⟨hlt, hended⟩
        exact .inl ⟨by omega, hended⟩
      · rintro (h | h)
        · exact ⟨Nat.lt_succ_of_lt h.1, h.2⟩
        · exact absurd h hk
  refine ⟨(hi.calls.set id s.allocated).congr fun k a => ?_, hi.held.congr fun k state => ?_, fun k h => ?_, fun k h => ?_,
    hi.clients⟩
  · have hnot : ¬ s.AnswersOn k id := fun h => by
      obtain ⟨_, hget, -⟩ := (hi.calls k id).1 h
      rw [hfree] at hget
      cases hget
    rw [AnswersOn, hlive, hheap]
    by_cases hk : k = s.allocated
    · subst hk
      simp only [if_true, AnswersOn, hfresh, hc, HostCall.new]
      grind
    · rw [if_neg hk]
      simp only [AnswersOn] at hnot ⊢
      grind
  · rw [Holds, hlive, hheap]
    by_cases hk : k = s.allocated
    · subst hk
      simp [Holds, hfresh, hc, HostCall.new]
    · simp [Holds, hk]
  · rw [hheap] at h ⊢
    split
    · rfl
    · next hk => exact hi.cleared k (by rwa [if_neg hk] at h)
  · rw [hheap]
    split
    · exact .inl hid
    · next hk => exact hi.issued k (((hlive k).1 h).resolve_right hk)

/-- A call holds a round more, in a table that has it under the state. -/
theorem Indexed.hold {s : Receiver} {r : Nat} {state : Str} {held : Dict Str (Nat × Members)} (hi : Indexed s)
    (hr : s.Live r) (hown : ∀ k, s.Holds k state → k = r)
    (hheld : held.Indexes Prod.fst fun k a => (a = state ∧ k = r) ∨ (a ≠ state ∧ s.Holds k a)) :
    Indexed { s.update r (.hold state) with held := held } := by
  have hheap : ∀ k, (s.update r (.hold state)).heap k = if k = r then (s.heap r).hold state else s.heap k :=
    fun k => update_heap ..
  have hsame : ∀ k, ((s.update r (.hold state)).heap k).ended = (s.heap k).ended ∧
      ((s.update r (.hold state)).heap k).currentId = (s.heap k).currentId := by
    intro k
    rw [hheap]
    split
    · next hk =>
      subst hk
      exact ⟨rfl, rfl⟩
    · exact ⟨rfl, rfl⟩
  have hlive : ∀ k, (s.update r (.hold state)).Live k ↔ s.Live k := by
    intro k
    rw [Live, (hsame k).1]
    rfl
  refine ⟨hi.calls.congr fun k a => ?_, hheld.congr fun k a => ?_, fun k h => ?_, fun k h => ?_, hi.clients⟩
  · change (s.update r (.hold state)).Live k ∧ ((s.update r (.hold state)).heap k).currentId = a ↔ _
    rw [hlive, (hsame k).2]
    rfl
  · change (s.update r (.hold state)).Live k ∧ a ∈ ((s.update r (.hold state)).heap k).held ↔ _
    rw [hlive, hheap]
    by_cases hk : k = r
    · subst hk
      simp only [if_true, HostCall.hold, List.mem_insert_iff, Holds, and_true, hr, true_and]
      tauto
    · have hnot : ¬ s.Holds k state := fun h => hk (hown k h)
      simp only [Holds] at hnot
      simp only [hk, if_false, Holds, and_false, false_or]
      grind
  · change ((s.update r (.hold state)).heap k).held = []
    have hk : k ≠ r := by
      rintro rfl
      have hended := hr.2
      rw [← (hsame k).1] at hended
      exact Bool.false_ne_true (hended.symm.trans h)
    rw [hheap, if_neg hk]
    exact hi.cleared k ((hsame k).1 ▸ h)
  · change ((s.update r (.hold state)).heap k).currentId ∈ s.clientIds ∨ _
    rw [(hsame k).2]
    exact hi.issued k ((hlive k).1 h)

/-- The client retries a round the call holds. -/
theorem Indexed.release {s : Receiver} {r : Nat} {state : Str} (hi : Indexed s) (hr : s.Holds r state) :
    Indexed { s.update r (.release state) with held := s.held.pop state } := by
  have hheap : ∀ k, (s.update r (.release state)).heap k = if k = r then (s.heap r).release state else s.heap k :=
    fun k => update_heap ..
  have hsame : ∀ k, ((s.update r (.release state)).heap k).ended = (s.heap k).ended ∧
      ((s.update r (.release state)).heap k).currentId = (s.heap k).currentId := by
    intro k
    rw [hheap]
    split
    · next hk =>
      subst hk
      exact ⟨rfl, rfl⟩
    · exact ⟨rfl, rfl⟩
  have hlive : ∀ k, (s.update r (.release state)).Live k ↔ s.Live k := by
    intro k
    rw [Live, (hsame k).1]
    rfl
  refine ⟨hi.calls.congr fun k a => ?_, (hi.held.pop state).congr fun k a => ?_, fun k h => ?_, fun k h => ?_, hi.clients⟩
  · change (s.update r (.release state)).Live k ∧ ((s.update r (.release state)).heap k).currentId = a ↔ _
    rw [hlive, (hsame k).2]
    rfl
  · change (s.update r (.release state)).Live k ∧ a ∈ ((s.update r (.release state)).heap k).held ↔ _
    rw [hlive, hheap]
    by_cases hk : k = r
    · subst hk
      simp only [if_true, HostCall.release, List.mem_filter, bne_iff_ne, Holds]
      tauto
    · have hnot : ¬ s.Holds k state := fun h => hk (hi.held.unique h hr)
      simp only [Holds] at hnot
      simp only [hk, if_false, Holds]
      grind
  · change ((s.update r (.release state)).heap k).held = []
    have hnil : (s.heap k).held = [] := hi.cleared k ((hsame k).1 ▸ h)
    rw [hheap]
    split
    · next hk =>
      subst hk
      simp [HostCall.release, hnil]
    · exact hnil
  · change ((s.update r (.release state)).heap k).currentId ∈ s.clientIds ∨ _
    rw [(hsame k).2]
    exact hi.issued k ((hlive k).1 h)

theorem Indexed.evict {s : Receiver} {r : Nat} (hi : Indexed s) (hr : s.Live r) : Indexed (s.evict r) :=
  (hi.detach hr).of_same (sameTables_dispatch ..)

@[simp] theorem evict_ended (r : Nat) (s : Receiver) : ((s.evict r).heap r).ended = true := by
  rw [Receiver.evict, (sameTables_dispatch ..).ended, detach_heap, if_pos rfl]
  rfl

/-- The call a held round is of. -/
theorem Indexed.holds_of_get {s : Receiver} {r : Nat} {state : Str} {responses : Members} (hi : Indexed s)
    (h : s.held.get state = some (r, responses)) : s.Holds r state := (hi.held r state).2 ⟨_, h, rfl⟩

theorem live_dispatch (lane : Option Nat) (job : Job) (s : Receiver) (k : Nat) : (s.dispatch lane job).Live k ↔ s.Live k :=
  (sameTables_dispatch lane job s).live k

theorem live_evict {r k : Nat} {s : Receiver} : (s.evict r).Live k ↔ s.Live k ∧ k ≠ r :=
  (live_dispatch ..).trans live_detach

/-- An eviction does not see the state that was popped before it. -/
theorem sameTables_pop_detach {s : Receiver} {r : Nat} {state : Str} (h : state ∈ (s.heap r).held) :
    SameTables (s.detach r) (({ s with held := s.held.pop state } : Receiver).detach r) := by
  refine ⟨rfl, rfl, fun a => ?_, rfl, rfl, fun _ => rfl, fun _ => rfl, fun _ => rfl⟩
  change ((s.held.pop state).popAll (s.heap r).held).get a = (s.held.popAll (s.heap r).held).get a
  by_cases ha : a ∈ (s.heap r).held
  · rw [Dict.get_popAll_of_mem ha, Dict.get_popAll_of_mem ha]
  · have hne : a ≠ state := fun heq => ha (heq ▸ h)
    rw [Dict.get_popAll_of_notMem ha, Dict.get_popAll_of_notMem ha, Dict.get_pop_ne _ hne]

/-- The round a call holds under a state makes room for another's. -/
theorem Indexed.makeRoom {s : Receiver} {r : Nat} {state : Str} (hi : Indexed s) (hr : s.Holds r state) :
    Indexed (({ s with held := s.held.pop state } : Receiver).evict r) :=
  ((hi.detach hr.1).of_same (sameTables_pop_detach hr.2)).of_same (sameTables_dispatch ..)

theorem Indexed.putHeld {s : Receiver} {r : Nat} {state : Str} {responses : Members} (hi : Indexed s) (hr : s.Live r) :
    Indexed (s.putHeld r state responses) := by
  unfold Receiver.putHeld
  cases hget : s.held.get state with
  | none =>
    refine hi.hold hr (fun k hk => ?_) (hi.held.set state (r, responses))
    obtain ⟨_, hget', -⟩ := (hi.held k state).1 hk
    rw [hget] at hget'
    cases hget'
  | some entry =>
    obtain ⟨previous, before⟩ := entry
    have hprev : s.Holds previous state := hi.holds_of_get hget
    dsimp only
    by_cases hown : previous = r
    · subst hown
      rw [if_pos (beq_self_eq_true previous)]
      refine hi.hold hr (fun k hk => hi.held.unique hk hprev) ?_
      refine ((hi.held.pop state).set state (previous, responses)).congr fun k a => ?_
      grind
    · rw [if_neg (by simpa using hown)]
      have hroom := hi.makeRoom hprev
      refine hroom.hold (live_evict.2 ⟨hr, fun h => hown h.symm⟩) (fun k hk => ?_) (hroom.held.set state (r, responses))
      obtain ⟨hlive, hin⟩ := hk
      obtain ⟨hlive', hne⟩ := live_evict.1 hlive
      have hheld : (({ s with held := s.held.pop state } : Receiver).evict previous |>.heap k).held = (s.heap k).held := by
        rw [Receiver.evict, (sameTables_dispatch ..).heldBy, detach_heap, if_neg hne]
      exact absurd (hi.held.unique ⟨hlive', hheld ▸ hin⟩ hprev) hne

/-! ## The registry over a step -/

variable {n : Nat}

/-- What the registry keeps: its tables, the closes, and that it holds no more than `n` rounds. -/
structure Registered (n : Nat) (s : Receiver) : Prop where
  indexed : Indexed s
  closes : ∀ r, (s.heap r).Closes
  unused : ∀ r, s.allocated ≤ r → (s.heap r).lane = ⟨[], none, [], false⟩
  bounded : s.held.items.length ≤ n

theorem Registered.lt_of_running {s : Receiver} {r : Nat} {p : Progress} (h : Registered n s)
    (hr : (s.heap r).lane.running = some p) : r < s.allocated := by
  refine Nat.lt_of_not_le fun hle => ?_
  rw [h.unused r hle] at hr
  cases hr

theorem Registered.lt_of_queue {s : Receiver} {r : Nat} {job : Job} {rest : List Job} (h : Registered n s)
    (hr : (s.heap r).lane.queue = job :: rest) : r < s.allocated := by
  refine Nat.lt_of_not_le fun hle => ?_
  rw [h.unused r hle] at hr
  cases hr

/-- What changes of a call is none of the tables' business. -/
theorem Registered.update {s : Receiver} {r : Nat} {f : HostCall → HostCall} (h : Registered n s) (hr : r < s.allocated)
    (hended : (f (s.heap r)).ended = (s.heap r).ended) (hid : (f (s.heap r)).currentId = (s.heap r).currentId)
    (hheld : (f (s.heap r)).held = (s.heap r).held) (hc : (f (s.heap r)).Closes) : Registered n (s.update r f) := by
  refine ⟨h.indexed.of_same (sameTables_update hended hid hheld), fun k => ?_, fun k hk => ?_, h.bounded⟩
  · rw [update_heap]
    split
    · exact hc
    · exact h.closes k
  · have hne : k ≠ r := fun heq => Nat.not_le_of_lt hr (heq ▸ hk)
    rw [update_heap_ne hne]
    exact h.unused k hk

theorem dispatch_isOpen {s : Receiver} {r : Nat} {job : Job} (h : (s.heap r).lane.closed = false) :
    s.dispatch (some r) job = s.update r (.queueJob job) := by
  simp [Receiver.dispatch, h]

/-- Work that is no close, for a call that was given none or for no call. -/
theorem Registered.dispatch {s : Receiver} {lane : Option Nat} {job : Job} (h : Registered n s)
    (hu : ∀ r, lane = some r → r < s.allocated ∧ (s.heap r).Unclosed) (hj : job.closes = false) :
    Registered n (s.dispatch lane job) := by
  cases lane with
  | none => exact ⟨h.indexed.of_same (sameTables_dispatch ..), h.closes, h.unused, h.bounded⟩
  | some r =>
    obtain ⟨hr, hu⟩ := hu r rfl
    rw [dispatch_isOpen ((h.closes r).isOpen hu)]
    exact h.update hr rfl rfl rfl ((h.closes r).queue hu hj)

/-- A call in flight ends, and this becomes of it. -/
theorem Registered.detach {s : Receiver} {r : Nat} {f : HostCall → HostCall} (h : Registered n s) (hr : s.Live r)
    (hended : ∀ c, (f c).ended = c.ended) (hid : ∀ c, (f c).currentId = c.currentId) (hheld : ∀ c, (f c).held = c.held)
    (hc : (f (s.heap r).detached).Closes) : Registered n ((s.detach r).update r f) := by
  refine ⟨(h.indexed.detach hr).of_same (sameTables_update (hended _) (hid _) (hheld _)), fun k => ?_, fun k hk => ?_,
    (Dict.length_popAll_le ..).trans h.bounded⟩
  · rw [update_heap, detach_heap, detach_heap, if_pos rfl]
    split
    · exact hc
    · exact h.closes k
  · have hne : k ≠ r := fun heq => Nat.not_le_of_lt hr.1 (heq ▸ hk)
    rw [update_heap_ne hne, detach_heap, if_neg hne]
    exact h.unused k hk

/-- A call in flight ends, and its close is queued. -/
theorem Registered.end {s : Receiver} {r : Nat} {job : Job} (h : Registered n s) (hr : s.Live r) (hj : job.closes = true) :
    Registered n ((s.detach r).dispatch (some r) job) := by
  have hopen : ((s.detach r).heap r).lane.closed = false := by
    rw [detach_heap, if_pos rfl]
    exact (h.closes r).isOpen ((h.closes r).inFlight hr.2)
  rw [dispatch_isOpen hopen]
  exact h.detach hr (fun _ => rfl) (fun _ => rfl) (fun _ => rfl) ((h.closes r).end hr.2 hj)

theorem Registered.evict {s : Receiver} {r : Nat} (h : Registered n s) (hr : s.Live r) : Registered n (s.evict r) :=
  h.end hr rfl

/-- A round of a call in flight is abandoned. -/
theorem Registered.abandon {s : Receiver} {r : Nat} {events : List Json} {message : Str} (h : Registered n s)
    (hr : s.Live r) : Registered n (s.abandon r events message) :=
  h.detach hr (fun _ => rfl) (fun _ => rfl) (fun _ => rfl) ((h.closes r).abandon hr.2)

theorem evict_heap {r : Nat} {s : Receiver} (h : (s.heap r).lane.closed = false) (k : Nat) :
    (s.evict r).heap k = if k = r then (s.heap r).detached.queueJob .close else s.heap k := by
  have hopen : ((s.detach r).heap r).lane.closed = false := by rwa [detach_heap, if_pos rfl]
  rw [Receiver.evict, dispatch_isOpen hopen, update_heap, detach_heap, detach_heap, if_pos rfl]
  split <;> rfl

/-- Of the state beside the tables, the two have the same. -/
structure SameBeside (s s' : Receiver) : Prop where
  allocated : s'.allocated = s.allocated
  delivered : s'.delivered = s.delivered
  auditedIds : s'.auditedIds = s.auditedIds
  clientIds : s'.clientIds = s.clientIds
  handshakeId : s'.handshakeId = s.handshakeId

theorem SameBeside.refl (s : Receiver) : SameBeside s s := ⟨rfl, rfl, rfl, rfl, rfl⟩

theorem SameBeside.trans {s s' s'' : Receiver} (h : SameBeside s s') (h' : SameBeside s' s'') : SameBeside s s'' :=
  ⟨h'.1.trans h.1, h'.2.trans h.2, h'.3.trans h.3, h'.4.trans h.4, h'.5.trans h.5⟩

theorem sameBeside_dispatch (lane : Option Nat) (job : Job) (s : Receiver) : SameBeside s (s.dispatch lane job) := by
  cases lane with
  | none => exact ⟨rfl, rfl, rfl, rfl, rfl⟩
  | some r =>
    unfold Receiver.dispatch
    dsimp only
    split <;> exact ⟨rfl, rfl, rfl, rfl, rfl⟩

/-- Some calls were evicted, and what calls hold may have changed. -/
structure Evicts (s s' : Receiver) : Prop where
  beside : SameBeside s s'
  heap : ∀ k, (∃ held, s'.heap k = { s.heap k with held }) ∨
    s.Live k ∧ ∃ held, s'.heap k = { (s.heap k).detached.queueJob .close with held }

theorem Evicts.refl (s : Receiver) : Evicts s s := ⟨.refl s, fun _ => .inl ⟨_, rfl⟩⟩

theorem Evicts.trans {s s' s'' : Receiver} (h : Evicts s s') (h' : Evicts s' s'') : Evicts s s'' := by
  refine ⟨h.1.trans h'.1, fun k => ?_⟩
  rcases h.2 k with ⟨held, hk⟩ | ⟨hlive, held, hk⟩
  · rcases h'.2 k with ⟨held', hk'⟩ | ⟨hlive', held', hk'⟩
    · exact .inl ⟨held', by rw [hk', hk]⟩
    · rw [Live, h.1.allocated, hk] at hlive'
      rw [hk] at hk'
      exact .inr ⟨hlive', held', hk'⟩
  · rcases h'.2 k with ⟨held', hk'⟩ | ⟨hlive', -⟩
    · exact .inr ⟨hlive, held', by rw [hk', hk]⟩
    · have hended := hlive'.2
      rw [hk] at hended
      exact absurd hended (by simp [HostCall.queueJob, HostCall.detached])

theorem evicts_evict {s : Receiver} {r : Nat} (h : (s.heap r).Closes) (hr : s.Live r) : Evicts s (s.evict r) := by
  have hdetach : SameBeside s (s.detach r) := ⟨rfl, rfl, rfl, rfl, rfl⟩
  refine ⟨hdetach.trans (sameBeside_dispatch (some r) .close (s.detach r)), fun k => ?_⟩
  rw [evict_heap (h.isOpen (h.inFlight hr.2))]
  split
  · next hk =>
    subst hk
    exact .inr ⟨hr, _, rfl⟩
  · exact .inl ⟨_, rfl⟩

/-- The loop of `_hold` ends. -/
theorem evictBeyond_spec : ∀ (fuel : Nat) (s : Receiver), s.held.items.length ≤ fuel → Registered n s →
    ∃ s', evictBeyond fuel s = some s' ∧ Registered MAX_IDLE_SESSIONS s' ∧ Evicts s s' := by
  intro fuel
  induction fuel with
  | zero =>
    intro s hlen h
    have hle : s.held.items.length ≤ MAX_IDLE_SESSIONS := by omega
    refine ⟨s, ?_, ⟨h.indexed, h.closes, h.unused, hle⟩, .refl s⟩
    rw [evictBeyond, if_pos hle]
  | succ fuel ih =>
    intro s hlen h
    rw [evictBeyond]
    split
    · next hle => exact ⟨s, rfl, ⟨h.indexed, h.closes, h.unused, hle⟩, .refl s⟩
    · next hgt =>
      split
      · next state r responses rest hitems =>
        have hget : s.held.get state = some (r, responses) := Dict.get_eq_some.2 (hitems ▸ List.mem_cons_self)
        obtain ⟨hr, hin⟩ := h.indexed.holds_of_get hget
        have hheld : (s.evict r).held = s.held.popAll (s.heap r).held := dispatch_held ..
        have hless : (s.evict r).held.items.length < s.held.items.length := hheld ▸ Dict.length_popAll_lt hin hget
        obtain ⟨s', hs', hreg, hev⟩ := ih (s.evict r) (by omega) (h.evict hr)
        exact ⟨s', hs', hreg, (evicts_evict (h.closes r) hr).trans hev⟩
      · next hitems => simp [hitems] at hgt

/-- What calls hold is changed. -/
theorem evicts_hold (s : Receiver) (r : Nat) (state : Str) (held : Dict Str (Nat × Members)) :
    Evicts s { s.update r (.hold state) with held := held } := by
  refine ⟨⟨rfl, rfl, rfl, rfl, rfl⟩, fun k => .inl ?_⟩
  change ∃ held, (s.update r (.hold state)).heap k = _
  rw [update_heap]
  split
  · next hk =>
    subst hk
    exact ⟨_, rfl⟩
  · exact ⟨_, rfl⟩

theorem Registered.putHeld_evicts {s : Receiver} {r : Nat} {state : Str} {responses : Members} (h : Registered n s) :
    Evicts s (s.putHeld r state responses) := by
  unfold Receiver.putHeld
  cases hget : s.held.get state with
  | none => exact evicts_hold s r state _
  | some entry =>
    obtain ⟨previous, before⟩ := entry
    dsimp only
    split
    · exact evicts_hold s r state _
    · let popped : Receiver := { s with held := s.held.pop state }
      have hev : Evicts popped (popped.evict previous) :=
        evicts_evict (h.closes previous) (h.indexed.holds_of_get hget).1
      have hpop : SameBeside s popped := ⟨rfl, rfl, rfl, rfl, rfl⟩
      have hroom : Evicts s (popped.evict previous) := ⟨hpop.trans hev.1, hev.2⟩
      exact hroom.trans (evicts_hold (popped.evict previous) r state _)

theorem Evicts.closes {s s' : Receiver} (he : Evicts s s') (h : Registered n s) (k : Nat) : (s'.heap k).Closes := by
  have hheld : ∀ (c : HostCall) (held : List Str), c.Closes → ({ c with held } : HostCall).Closes :=
    fun c held h => ⟨h.1, h.2, h.3, h.4⟩
  rcases he.2 k with ⟨held, hk⟩ | ⟨hlive, held, hk⟩
  · rw [hk]
    exact hheld _ held (h.closes k)
  · rw [hk]
    exact hheld _ held ((h.closes k).end hlive.2 rfl)

theorem Evicts.unused {s s' : Receiver} (he : Evicts s s') (h : Registered n s) (k : Nat) (hk : s'.allocated ≤ k) :
    (s'.heap k).lane = ⟨[], none, [], false⟩ := by
  rw [he.1.allocated] at hk
  rcases he.2 k with ⟨held, heq⟩ | ⟨hlive, -⟩
  · rw [heq]
    exact h.unused k hk
  · exact absurd hlive.1 (Nat.not_lt_of_le hk)

/-- One round more is held, at most. -/
theorem length_putHeld (s : Receiver) (r : Nat) (state : Str) (responses : Members) :
    (s.putHeld r state responses).held.items.length ≤ s.held.items.length + 1 := by
  unfold Receiver.putHeld
  split
  · next previous before hget =>
    refine (Dict.length_set_le ..).trans (Nat.succ_le_succ ?_)
    dsimp only
    split
    · exact Dict.length_pop_le ..
    · rw [Receiver.evict, dispatch_held]
      exact (Dict.length_popAll_le ..).trans (Dict.length_pop_le ..)
  · exact Dict.length_set_le ..

theorem Registered.putHeld {s : Receiver} {r : Nat} {state : Str} {responses : Members} (h : Registered n s)
    (hr : s.Live r) : Registered (n + 1) (s.putHeld r state responses) :=
  ⟨h.indexed.putHeld hr, h.putHeld_evicts.closes h, h.putHeld_evicts.unused h,
    (length_putHeld ..).trans (Nat.succ_le_succ h.bounded)⟩

/-- `_hold` returns, with the bound kept. -/
theorem Registered.hold {s : Receiver} {r : Nat} (state : Str) (responses : Members) (h : Registered n s) (hr : s.Live r) :
    ∃ s', s.hold r state responses = some s' ∧ Registered MAX_IDLE_SESSIONS s' ∧ Evicts s s' := by
  obtain ⟨s', hs', hreg, hev⟩ := evictBeyond_spec _ _ (Nat.le_refl _) (h.putHeld hr)
  exact ⟨s', hs', hreg, h.putHeld_evicts.trans hev⟩

end Receiver

end AuditableMcp
