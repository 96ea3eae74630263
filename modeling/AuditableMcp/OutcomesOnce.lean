import AuditableMcp.CallRegistry
/-!
# The host hands each outcome on once

What arrives in a call's rounds and in its final result waits in the call's lane, in the job in progress and in the jobs
behind it (`HostCall.pending`). Whatever was received is what was handed to `endpoint.handle_outcome` and then what
is pending (`Accounted`), so the outcomes are handed on once each, in the order of their arrival, and all of them
before the session is closed (`outcomes_once`).

Two things break this, and `Timely` leaves them out: a call that ends while a round of it waits, which is dropped
unread (`ended_round_dropped`), and a round whose deadline passes while another of the call waits, whose leftover is
queued behind it.
-/
namespace AuditableMcp

open JsonValue

/-- The outcomes a job is to hand on. -/
def Job.outcomes : Job → List Json
  | .follow frame | .conclude frame => outcomesOf (frameEvents frame)
  | .sealAll events => outcomesOf events
  | _ => []

/-- The outcomes the job in progress has still to hand on. -/
def Progress.outcomes : Progress → List Json
  | .following _ _ work | .abandoning _ work => outcomesOf work.todo
  | .sealing events _ => outcomesOf events
  | _ => []

/-- The outcomes of the call that are not handed on yet, in order. -/
def HostCall.pending (c : HostCall) : List Json :=
  (c.lane.running.map Progress.outcomes).getD [] ++ c.lane.queue.flatMap Job.outcomes

/-- No round that waits in the queue has an outcome. -/
def NoOutcomeWaits (queue : List Job) : Prop := ∀ frame, Job.follow frame ∈ queue → outcomesOf (frameEvents frame) = []

structure HostCall.Accounted (c : HostCall) : Prop where
  received : c.received = outcomesOf c.handed ++ c.pending
  dropped : c.ended = true → NoOutcomeWaits c.lane.queue
  closed : c.lane.closed = true → c.lane.running = none

@[simp] theorem outcomesOf_nil : outcomesOf [] = [] := rfl

theorem outcomesOf_append (xs ys : List Json) : outcomesOf (xs ++ ys) = outcomesOf xs ++ outcomesOf ys :=
  List.filter_append ..

@[simp] theorem outcomesOf_outcomesOf (xs : List Json) : outcomesOf (outcomesOf xs) = outcomesOf xs := by
  simp [outcomesOf, List.filter_filter]

theorem outcomesOf_cons (x : Json) (xs : List Json) : outcomesOf (x :: xs) = outcomesOf [x] ++ outcomesOf xs :=
  outcomesOf_append [x] xs

namespace HostCall

/-! ## What becomes of a call -/

theorem pending_queueJob (c : HostCall) (job : Job) : (c.queueJob job).pending = c.pending ++ job.outcomes := by
  simp [pending, queueJob]

theorem pending_await (c : HostCall) (p : Option Progress) :
    (c.await p).pending = (p.map Progress.outcomes).getD [] ++ c.lane.queue.flatMap Job.outcomes := rfl

theorem pending_of_running {c : HostCall} {p : Option Progress} (h : c.lane.running = p) :
    c.pending = (p.map Progress.outcomes).getD [] ++ c.lane.queue.flatMap Job.outcomes := by rw [pending, h]

/-- A job that has nothing to hand on joins the lane. -/
theorem Accounted.queue {c : HostCall} (h : c.Accounted) (job : Job) (hj : job.outcomes = [])
    (hf : ∀ frame, job ≠ .follow frame) : (c.queueJob job).Accounted where
  received := by
    rw [pending_queueJob, hj, List.append_nil]
    exact h.received
  dropped hended frame hin := by
    rcases List.mem_append.1 hin with hin | hin
    · exact h.dropped hended frame hin
    · exact absurd (List.mem_singleton.1 hin).symm (hf frame)
  closed := h.closed

/-- The call ends while no round of it with outcomes waits. -/
theorem Accounted.detach {c : HostCall} (h : c.Accounted) (hq : NoOutcomeWaits c.lane.queue) : c.detached.Accounted where
  received := h.received
  dropped _ := hq
  closed := h.closed

/-- An answer arrives, and its job joins the lane. -/
theorem Accounted.receive {c : HostCall} {job : Job} (h : c.Accounted) (frame : Frame)
    (hj : job.outcomes = outcomesOf (frameEvents frame)) (hf : c.ended = false ∨ ∀ frame, job ≠ .follow frame) :
    ({ c with received := c.received ++ outcomesOf (frameEvents frame) }.queueJob job).Accounted where
  received := by
    rw [pending_queueJob, hj]
    change c.received ++ _ = outcomesOf c.handed ++ (c.pending ++ _)
    rw [h.received, List.append_assoc]
  dropped hended frame hin := by
    rcases List.mem_append.1 hin with hin | hin
    · exact h.dropped hended frame hin
    · rcases hf with hlive | hf
      · exact absurd (hlive.symm.trans hended) (by decide)
      · exact absurd (List.mem_singleton.1 hin).symm (hf frame)
  closed := h.closed

/-- The job in progress goes on, with as much to hand on. -/
theorem Accounted.goOn {c : HostCall} {p : Progress} {q : Option Progress} (h : c.Accounted)
    (hp : c.lane.running = some p) (hq : (q.map Progress.outcomes).getD [] = p.outcomes) : (c.await q).Accounted where
  received := by
    change c.received = outcomesOf c.handed ++ _
    rw [pending_await, hq, h.received, pending_of_running hp]
    rfl
  dropped := h.dropped
  closed hc := by
    have hnone := h.closed hc
    rw [hp] at hnone
    cases hnone

/-- The lane takes up its next job. -/
theorem Accounted.take {c : HostCall} {job : Job} {rest : List Job} {p : Option Progress} (h : c.Accounted)
    (hopen : c.lane.closed = false) (hrun : c.lane.running = none) (hq : c.lane.queue = job :: rest)
    (hp : (p.map Progress.outcomes).getD [] = job.outcomes) : ((c.takeJob job rest).await p).Accounted where
  received := by
    change c.received = outcomesOf c.handed ++ ((p.map Progress.outcomes).getD [] ++ rest.flatMap Job.outcomes)
    rw [h.received, pending_of_running hrun, hq, hp]
    rfl
  dropped hended frame hin := h.dropped hended frame (hq ▸ List.mem_cons_of_mem job hin)
  closed hc := absurd (hopen.symm.trans hc) (by decide)

/-- Of a call, its account depends on what arrived, what was handed on and the lane. -/
theorem Accounted.congr {c d : HostCall} (h : c.Accounted) (hr : d.received = c.received) (hh : d.handed = c.handed)
    (hl : d.lane = c.lane) (he : d.ended = true → c.ended = true ∨ NoOutcomeWaits c.lane.queue) : d.Accounted where
  received := by
    rw [hr, hh, pending, hl]
    exact h.received
  dropped hended := by
    rw [hl]
    exact (he hended).elim h.dropped fun hq => hq
  closed := by
    rw [hl]
    exact h.closed

/-- The round in progress leaves outcomes to a job of their own, where none waits before them. -/
theorem Accounted.leave {c : HostCall} {p q : Progress} (h : c.Accounted) (hp : c.lane.running = some p)
    (hq : q.outcomes = []) (hidem : outcomesOf p.outcomes = p.outcomes)
    (hw : p.outcomes ≠ [] → c.lane.queue.flatMap Job.outcomes = []) :
    ((if p.outcomes.isEmpty then c else c.queueJob (.sealAll p.outcomes)).await (some q)).Accounted := by
  have hreceived := h.received
  rw [pending_of_running hp] at hreceived
  split
  · next hnil =>
    exact h.goOn hp (hq.trans (List.isEmpty_iff.1 hnil).symm)
  · next hne =>
    have hne : p.outcomes ≠ [] := fun heq => hne (List.isEmpty_iff.2 heq)
    refine ⟨?_, fun hended frame hin => ?_, fun hc => ?_⟩
    · rw [pending_await]
      change c.received = outcomesOf c.handed ++ (_ ++ (c.lane.queue ++ [Job.sealAll p.outcomes]).flatMap Job.outcomes)
      rw [hreceived, List.flatMap_append, hw hne]
      simp [hq, Job.outcomes, hidem]
    · rcases List.mem_append.1 hin with hin | hin
      · exact h.dropped hended frame hin
      · cases List.mem_singleton.1 hin
    · have hnone := h.closed hc
      rw [hp] at hnone
      cases hnone

/-- An item is handed on. -/
theorem Accounted.hand {c : HostCall} {p q : Progress} {events : List Json} (h : c.Accounted)
    (hp : c.lane.running = some p) (hq : p.outcomes = outcomesOf events ++ q.outcomes) :
    ({ c.await (some q) with handed := c.handed ++ events } : HostCall).Accounted where
  received := by
    change c.received = outcomesOf (c.handed ++ events) ++ (c.await (some q)).pending
    rw [h.received, pending_of_running hp, pending_await, outcomesOf_append]
    simp [hq]
  dropped := h.dropped
  closed hc := by
    have hnone := h.closed hc
    rw [hp] at hnone
    cases hnone

end HostCall

namespace Receiver

def Accounts (s : Receiver) : Prop := ∀ r, (s.heap r).Accounted

theorem accounts_new (capability : Members) : Accounts (new capability) := fun _ =>
  ⟨rfl, by rintro ⟨⟩, by rintro ⟨⟩⟩

theorem Accounts.update {s : Receiver} {r : Nat} {f : HostCall → HostCall} (h : Accounts s)
    (hf : (f (s.heap r)).Accounted) : Accounts (s.update r f) := by
  intro k
  rw [update_heap]
  split
  · exact hf
  · exact h k

/-- Work that has nothing to hand on. -/
theorem Accounts.dispatch {s : Receiver} {lane : Option Nat} {job : Job} (h : Accounts s) (hj : job.outcomes = [])
    (hf : ∀ frame, job ≠ .follow frame) : Accounts (s.dispatch lane job) := by
  cases lane with
  | none => exact h
  | some r =>
    unfold Receiver.dispatch
    dsimp only
    split
    · exact h
    · exact h.update ((h r).queue _ hj hf)

theorem Accounts.detach {s : Receiver} {r : Nat} (h : Accounts s) (hq : NoOutcomeWaits (s.heap r).lane.queue) :
    Accounts (s.detach r) := by
  intro k
  rw [detach_heap]
  split
  · exact (h r).detach hq
  · exact h k

theorem Accounts.evict {s : Receiver} {r : Nat} (h : Accounts s) (hq : NoOutcomeWaits (s.heap r).lane.queue) :
    Accounts (s.evict r) := (h.detach hq).dispatch rfl (by rintro _ ⟨⟩)

/-- Some calls were evicted, and none while a round of it with outcomes waited. -/
theorem Accounts.evicts {s s' : Receiver} (h : Accounts s) (he : Evicts s s')
    (hq : ∀ k, (s.heap k).ended = false → (s'.heap k).ended = true → NoOutcomeWaits (s.heap k).lane.queue) :
    Accounts s' := by
  intro k
  rcases he.2 k with ⟨held, hk⟩ | ⟨hlive, held, hk⟩
  · rw [hk]
    exact ⟨(h k).1, (h k).2, (h k).3⟩
  · have hev := ((h k).detach (hq k hlive.2 (by rw [hk]; rfl))).queue .close rfl (by rintro _ ⟨⟩)
    rw [hk]
    exact ⟨hev.1, hev.2, hev.3⟩

/-! ## The acts -/

/-- The jobs that wait in a call's lane behind what the act takes up. -/
def Act.waiting (s : Receiver) (a : Act) (r : Nat) : List Job :=
  match a with
  | .takeUp k => if k = r then (s.heap r).lane.queue.tail else (s.heap r).lane.queue
  | _ => (s.heap r).lane.queue

/-- No call ends in the act while a round of it with outcomes waits, and no outcomes are left to a job of their own
while others wait in the lane. -/
structure Timely (s : Receiver) (a : Act) (s' : Receiver) : Prop where
  ends : ∀ r, (s.heap r).ended = false → (s'.heap r).ended = true → NoOutcomeWaits (a.waiting s r)
  leaves : ∀ r p, a = .cutOff r → (s.heap r).lane.running = some p → (s.heap r).ended = false ∨ p.isAbandoning = true →
    p.outcomes ≠ [] → (s.heap r).lane.queue.flatMap Job.outcomes = []

def TimelyStep (s s' : Receiver) : Prop := ∃ a, s.step a = some s' ∧ Timely s a s'

theorem Accounts.rekey {s : Receiver} {r : Nat} {id : RequestId} (h : Accounts s) : Accounts (s.rekey r id) := by
  intro k
  rw [rekey_heap]
  split
  · exact (h r).congr rfl rfl rfl .inl
  · exact h k

theorem Accounts.toolsCall {s : Receiver} {id : RequestId} {params : Members} {session : Str} (h : Accounts s) :
    Accounts (s.toolsCall id params session).2 := by
  unfold Receiver.toolsCall
  split
  · exact h
  · split
    · next state r responses hround =>
      have hreleased : Accounts (s.update r (.release state)) := h.update ((h r).congr rfl rfl rfl .inl)
      have hkeyed : Accounts (({ s.update r (.release state) with held := s.held.pop state } : Receiver).rekey r id) :=
        Accounts.rekey (s := { s.update r (.release state) with held := s.held.pop state }) hreleased
      exact hkeyed.update (f := fun c => { c with clientId := id }) ((hkeyed r).congr rfl rfl rfl .inl)
    · split
      · exact h
      · intro k
        change (Function.update s.heap s.allocated _ k).Accounted
        rw [Function.update_apply]
        split
        · exact ⟨rfl, by rintro ⟨⟩, by rintro ⟨⟩⟩
        · exact h k

theorem Accounts.outbound {s : Receiver} {frame : Frame} {session : Str} (h : Accounts s) (hi : Indexed s)
    (hq : ∀ r, (s.heap r).ended = false → ((s.outbound frame session).2.heap r).ended = true →
      NoOutcomeWaits (s.heap r).lane.queue) : Accounts (s.outbound frame session).2 := by
  cases frame with
  | request id method params =>
    unfold Receiver.outbound outboundRequest
    dsimp only
    split
    · split <;> exact h
    · split
      · split
        · exact Accounts.toolsCall (s := { s with clientIds := s.clientIds ++ [id], handshakeId := some id }) h
        · exact Accounts.toolsCall (s := { s with clientIds := s.clientIds ++ [id] }) h
      · split <;> exact h
  | notification method params =>
    unfold Receiver.outbound at hq ⊢
    dsimp only at hq ⊢
    split
    · next hcancel =>
      rw [if_pos hcancel, cancel_eq] at hq
      rw [cancel_eq]
      cases hr : s.cancelled (params.getD []) with
      | none => exact h
      | some r =>
        rw [hr] at hq
        exact h.evict (hq r (hi.cancelled hr).2 (evict_ended r s))
    · exact h
  | response id result => exact h
  | error id code message => exact h

theorem Accounts.answered {s : Receiver} {r : Nat} {frame : Frame} (h : Accounts s) (hreg : Registered MAX_IDLE_SESSIONS s)
    (hr : s.Live r) (hq : ((s.answered r frame).heap r).ended = true → NoOutcomeWaits (s.heap r).lane.queue) :
    Accounts (s.answered r frame) := by
  have hopen := (hreg.closes r).isOpen ((hreg.closes r).inFlight hr.2)
  let receive (c : HostCall) : HostCall := { c with received := c.received ++ outcomesOf (frameEvents frame) }
  have hheap : (s.update r receive).heap r = receive (s.heap r) := update_heap_self ..
  unfold Receiver.answered at hq ⊢
  dsimp only at hq ⊢
  split
  · next hconcludes =>
    have hopen' : (((s.update r receive).detach r).heap r).lane.closed = false := by
      rw [detach_heap, if_pos rfl, hheap]
      exact hopen
    have hwaits : NoOutcomeWaits (s.heap r).lane.queue := by
      refine hq ?_
      rw [if_pos hconcludes]
      change ((Receiver.dispatch _ _ _).heap r).ended = true
      rw [(sameTables_dispatch ..).ended, detach_heap, if_pos rfl]
      rfl
    intro k
    change ((Receiver.dispatch (some r) (.conclude frame) ((s.update r receive).detach r)).heap k).Accounted
    rw [dispatch_isOpen hopen', update_heap, detach_heap, detach_heap, if_pos rfl, hheap, update_heap]
    split
    · exact ((h r).detach hwaits).receive frame rfl (.inr (by rintro _ ⟨⟩))
    · exact h k
  · rw [dispatch_isOpen (by rw [hheap]; exact hopen), update_update]
    exact h.update ((h r).receive frame rfl (.inl hr.2))

theorem Accounts.inbound {s : Receiver} {frame : Frame} {related : Option RequestId} (h : Accounts s)
    (hreg : Registered MAX_IDLE_SESSIONS s)
    (hq : ∀ r, (s.heap r).ended = false → ((s.inbound frame related).heap r).ended = true →
      NoOutcomeWaits (s.heap r).lane.queue) : Accounts (s.inbound frame related) := by
  have hanswer : ∀ id, (∀ r, (s.heap r).ended = false → ((s.inboundAnswer id frame).heap r).ended = true →
      NoOutcomeWaits (s.heap r).lane.queue) → Accounts (s.inboundAnswer id frame) := by
    intro id hq
    unfold Receiver.inboundAnswer at hq ⊢
    cases hget : id.bind s.calls.get with
    | none => exact h
    | some r =>
      rw [hget] at hq
      obtain ⟨id, -, hget⟩ := Option.bind_eq_some_iff.1 hget
      have hlive := ((hreg.indexed.calls r id).2 ⟨r, hget, rfl⟩).1
      exact h.answered hreg hlive (hq r hlive.2)
  cases frame with
  | request id method params =>
    unfold Receiver.inbound
    dsimp only
    split
    · exact h.dispatch rfl (by rintro _ ⟨⟩)
    · split <;> exact h
  | notification method params =>
    unfold Receiver.inbound
    dsimp only
    split
    · exact h.dispatch rfl (by rintro _ ⟨⟩)
    · split <;> exact h
  | response id result =>
    unfold Receiver.inbound at hq ⊢
    dsimp only at hq ⊢
    split
    · exact h
    · next hhand =>
      rw [if_neg hhand] at hq
      exact hanswer _ hq
  | error id code message => exact hanswer id hq

/-- One call has changed, and is accounted for. -/
theorem Accounts.of_call {s s' : Receiver} {r : Nat} (h : Accounts s) (hother : ∀ k, k ≠ r → s'.heap k = s.heap k)
    (hr : (s'.heap r).Accounted) : Accounts s' := by
  intro k
  by_cases hk : k = r
  · exact hk ▸ hr
  · exact hother k hk ▸ h k

/-- A round is taken up: followed, abandoned, or dropped where its call has ended. -/
theorem Accounts.follow {s taken : Receiver} {r : Nat} {frame : Frame} {rest : List Job} (h : Accounts s)
    (htaken : s.update r (.takeJob (.follow frame) rest) = taken) (hopen : (s.heap r).lane.closed = false)
    (hrun : (s.heap r).lane.running = none) (hqueue : (s.heap r).lane.queue = .follow frame :: rest)
    (hq : (s.heap r).ended = false → ((taken.follow r frame).heap r).ended = true → NoOutcomeWaits rest) :
    Accounts (taken.follow r frame) := by
  have htake : ∀ p : Option Progress, (p.map Progress.outcomes).getD [] = outcomesOf (frameEvents frame) →
      (((s.heap r).takeJob (.follow frame) rest).await p).Accounted :=
    fun p hp => (h r).take hopen hrun hqueue hp
  have hheap : taken.heap r = (s.heap r).takeJob (.follow frame) rest := htaken ▸ update_heap_self ..
  have hother : ∀ k, k ≠ r → taken.heap k = s.heap k := fun k hk => htaken ▸ update_heap_ne hk ..
  rcases follow_cases r frame taken with ⟨heq, hnone⟩ | ⟨hlive, ⟨result, state, heq⟩ | ⟨message, heq⟩⟩
  · have hnone : outcomesOf (frameEvents frame) = [] := by
      rcases hnone with hended | hnone
      · rw [hheap] at hended
        exact (h r).dropped hended frame (hqueue ▸ List.mem_cons_self)
      · rw [hnone]
        rfl
    rw [heq]
    refine h.of_call (r := r) (fun k hk => (update_heap_ne hk ..).trans (hother k hk)) ?_
    rw [endJob, update_heap_self, hheap]
    exact htake none hnone.symm
  · rw [heq]
    refine h.of_call (r := r) (fun k hk => ?_) ?_
    · rw [proceed, update_heap_ne hk, update_heap_ne hk, hother k hk]
    · rw [proceed, update_heap_self, update_heap_self, hheap]
      exact (htake (some (.following result state (.start (frameEvents frame) true))) rfl).congr rfl rfl rfl .inl
  · rw [hheap] at hlive
    have hended : ((taken.follow r frame).heap r).ended = true := by
      rw [heq, abandon, proceed, update_heap_self, detach_heap, if_pos rfl]
      rfl
    have hrest := hq hlive hended
    rw [heq]
    refine h.of_call (r := r) (fun k hk => ?_) ?_
    · rw [abandon, proceed, update_heap_ne hk, detach_heap, if_neg hk, update_heap_ne hk, hother k hk]
    · rw [abandon, proceed, update_heap_self, detach_heap, if_pos rfl, update_heap_self, hheap]
      exact (htake (some (.abandoning message (.start (frameEvents frame) false))) rfl).congr rfl rfl rfl fun _ => .inr hrest

theorem Accounts.takeUp {s s' : Receiver} {r : Nat} (h : Accounts s) (hreg : Registered MAX_IDLE_SESSIONS s)
    (hq : (s.heap r).ended = false → (s'.heap r).ended = true → NoOutcomeWaits (s.heap r).lane.queue.tail)
    (hs : s.takeUp r = some s') : Accounts s' := by
  unfold Receiver.takeUp at hs
  dsimp only at hs
  split at hs
  · next job rest hrun hqueue =>
    have hopen : (s.heap r).lane.closed = false := by
      refine Bool.eq_false_iff.2 fun hc => ?_
      have hnil := (hreg.closes r).queue_nil ((hreg.closes r).closing (.inr hc))
      rw [hqueue] at hnil
      cases hnil
    rw [hqueue, List.tail_cons] at hq
    have hgoes : ∀ p : Progress, p.outcomes = job.outcomes → Accounts ((s.update r (.takeJob job rest)).proceed r p) := by
      intro p hp
      rw [proceed, update_update]
      exact h.update ((h r).take (p := some p) hopen hrun hqueue hp)
    cases job with
    | follow frame =>
      obtain rfl := Option.some.inj hs
      exact h.follow rfl hopen hrun hqueue hq
    | conclude frame =>
      obtain rfl := Option.some.inj hs
      exact hgoes _ rfl
    | sealAll events =>
      obtain rfl := Option.some.inj hs
      exact hgoes _ rfl
    | close =>
      obtain rfl := Option.some.inj hs
      exact hgoes _ rfl
    | answerAttempt id =>
      obtain rfl := Option.some.inj hs
      exact hgoes _ rfl
    | sealOutcome params =>
      obtain rfl := Option.some.inj hs
      exact hgoes _ rfl
  · cases hs

theorem takeItem_outcomes {work after : RoundWork} {events : List Json} (h : work.takeItem = some (after, events)) :
    outcomesOf work.todo = outcomesOf events ++ outcomesOf after.todo := by
  unfold RoundWork.takeItem at h
  split at h
  · next event todo hdeciding htodo =>
    rw [htodo, outcomesOf_cons]
    split at h
    · cases h
      rfl
    · next hattempt =>
      have hnone : outcomesOf [event] = [] := by simpa [outcomesOf] using hattempt
      split at h <;> (cases h; rw [hnone]; rfl)
  · cases h

theorem Accounts.takeItem {s s' : Receiver} {r : Nat} (h : Accounts s) (hs : s.takeItem r = some s') : Accounts s' := by
  have hhand : ∀ (p q : Progress) (events : List Json), (s.heap r).lane.running = some p →
      p.outcomes = outcomesOf events ++ q.outcomes →
        Accounts ((s.proceed r q).update r fun c => { c with handed := c.handed ++ events }) := by
    intro p q events hp hq
    rw [proceed, update_update]
    exact h.update ((h r).hand hp hq)
  unfold Receiver.takeItem at hs
  dsimp only at hs
  split at hs
  · next result state work hp =>
    obtain ⟨⟨after, events⟩, htake, rfl⟩ := Option.map_eq_some_iff.1 hs
    exact hhand _ _ _ hp (takeItem_outcomes htake)
  · next message work hp =>
    obtain ⟨⟨after, events⟩, htake, rfl⟩ := Option.map_eq_some_iff.1 hs
    exact hhand _ _ _ hp (takeItem_outcomes htake)
  · next event events closes hp =>
    obtain rfl := Option.some.inj hs
    exact hhand _ _ _ hp (outcomesOf_cons event events)
  · cases hs

theorem Accounts.goOn {s : Receiver} {r : Nat} {p : Progress} {q : Option Progress} (h : Accounts s)
    (hp : (s.heap r).lane.running = some p) (hq : (q.map Progress.outcomes).getD [] = p.outcomes) :
    Accounts (s.update r (.await q)) := h.update ((h r).goOn hp hq)

theorem Accounts.decided {s s' : Receiver} {r : Nat} {answer : Members} (h : Accounts s)
    (hs : s.decided r answer = some s') : Accounts s' := by
  unfold Receiver.decided at hs
  split at hs
  · next result state work hp =>
    obtain ⟨event, -, rfl⟩ := Option.map_eq_some_iff.1 hs
    exact h.goOn hp rfl
  · next id hp =>
    obtain rfl := Option.some.inj hs
    exact Accounts.goOn (s := { s with toTool := s.toTool ++ [.response id answer] }) h hp rfl
  · cases hs

theorem Accounts.finish {s s' : Receiver} {r : Nat} (h : Accounts s) (hs : s.finish r = some s') : Accounts s' := by
  unfold Receiver.finish at hs
  split at hs
  · next hp =>
    obtain rfl := Option.some.inj hs
    exact h.goOn hp rfl
  · next hp =>
    obtain rfl := Option.some.inj hs
    exact h.goOn hp rfl
  · next frame hp =>
    obtain rfl := Option.some.inj hs
    exact Accounts.goOn (s := s.deliver frame) h hp rfl
  · next frame hp =>
    obtain rfl := Option.some.inj hs
    exact Accounts.goOn (s := { s with toTool := s.toTool ++ [frame] }) h hp rfl
  · next hp =>
    obtain rfl := Option.some.inj hs
    rw [endJob, update_update]
    have hdone := (h r).goOn (q := none) hp rfl
    exact h.update (f := fun c => { c with lane := { c.lane with closed := true, running := none } })
      ⟨hdone.1, hdone.2, fun _ => rfl⟩
  · next params hp =>
    obtain rfl := Option.some.inj hs
    exact h.goOn hp rfl
  · cases hs

theorem Accounts.unsent {s s' : Receiver} {r : Nat} (h : Accounts s) (hreg : Registered MAX_IDLE_SESSIONS s)
    (hq : (s.heap r).ended = false → (s'.heap r).ended = true → NoOutcomeWaits (s.heap r).lane.queue)
    (hs : s.unsent r = some s') : Accounts s' := by
  unfold Receiver.unsent at hs
  dsimp only at hs
  split at hs
  · next frame hp =>
    split at hs
    · obtain rfl := Option.some.inj hs
      exact h.goOn hp rfl
    · next hended =>
      obtain rfl := Option.some.inj hs
      have hlive : s.Live r := ⟨hreg.lt_of_running hp, Bool.eq_false_iff.2 hended⟩
      have hwaits : NoOutcomeWaits (s.heap r).lane.queue := by
        refine hq hlive.2 ?_
        rw [proceed, update_heap_self]
        exact evict_ended r s
      exact (h.evict hwaits).goOn (((evicts_evict (hreg.closes r) hlive).running r).trans hp) rfl
  · cases hs

theorem queueLeftover_heap {s : Receiver} {r : Nat} (leftover : List Json) (h : (s.heap r).lane.closed = false) (k : Nat) :
    (s.queueLeftover r leftover).heap k = if k = r then
      (if leftover.isEmpty then s.heap r else (s.heap r).queueJob (.sealAll leftover)) else s.heap k := by
  unfold Receiver.queueLeftover
  split
  · split
    · next hk => rw [hk]
    · rfl
  · rw [dispatch_isOpen h, update_heap]

theorem noOutcomeWaits_queueLeftover {s : Receiver} {r : Nat} {leftover : List Json} (h : (s.heap r).lane.closed = false)
    (hq : NoOutcomeWaits (s.heap r).lane.queue) : NoOutcomeWaits ((s.queueLeftover r leftover).heap r).lane.queue := by
  rw [queueLeftover_heap _ h, if_pos rfl]
  split
  · exact hq
  · intro frame hin
    rcases List.mem_append.1 hin with hin | hin
    · exact hq frame hin
    · cases List.mem_singleton.1 hin

/-- The job in progress goes on beside the evictions. -/
theorem Evicts.proceed {s s' : Receiver} {r : Nat} {p : Progress} (h : Evicts s s') :
    Evicts (s.proceed r p) (s'.proceed r p) := by
  refine ⟨⟨h.1.1, h.1.2, h.1.3, h.1.4, h.1.5⟩, fun k => ?_⟩
  have hlive : ∀ k, s.Live k → (s.proceed r p).Live k := by
    intro k hk
    refine ⟨hk.1, ?_⟩
    rw [Receiver.proceed, update_heap]
    split
    · next heq => exact heq ▸ hk.2
    · exact hk.2
  rw [Receiver.proceed, Receiver.proceed, update_heap, update_heap]
  split
  · next hk =>
    subst hk
    rcases h.2 k with ⟨held, heq⟩ | ⟨hl, held, heq⟩
    · exact .inl ⟨held, by rw [heq]; rfl⟩
    · exact .inr ⟨hlive k hl, held, by rw [heq]; rfl⟩
  · rcases h.2 k with hsame | ⟨hl, hev⟩
    · exact .inl hsame
    · exact .inr ⟨hlive k hl, hev⟩

/-- The round in progress is over, and its leftover is a job of its own. -/
theorem Accounts.leave {s : Receiver} {r : Nat} {p q : Progress} (h : Accounts s) (hopen : (s.heap r).lane.closed = false)
    (hp : (s.heap r).lane.running = some p) (hidem : outcomesOf p.outcomes = p.outcomes) (hq : q.outcomes = [])
    (hw : p.outcomes ≠ [] → (s.heap r).lane.queue.flatMap Job.outcomes = []) :
    Accounts ((s.queueLeftover r p.outcomes).proceed r q) := by
  refine h.of_call (r := r) (fun k hk => ?_) ?_
  · rw [proceed, update_heap_ne hk, queueLeftover_heap _ hopen, if_neg hk]
  · rw [proceed, update_heap_self, queueLeftover_heap _ hopen, if_pos rfl]
    exact (h r).leave hp hq hidem hw

theorem Accounts.cutOff {s s' : Receiver} {r : Nat} (h : Accounts s) (hreg : Registered MAX_IDLE_SESSIONS s)
    (ht : Timely s (.cutOff r) s') (hs : s.cutOff r = some s') : Accounts s' := by
  unfold Receiver.cutOff at hs
  dsimp only at hs
  split at hs
  · next result state work hp =>
    split at hs
    · obtain rfl := Option.some.inj hs
      exact h.goOn hp (outcomesOf_outcomesOf _)
    · next hended =>
      have hended : (s.heap r).ended = false := Bool.eq_false_iff.2 hended
      have hr := hreg.lt_of_running hp
      have hu := (hreg.closes r).inFlight hended
      have hopen := (hreg.closes r).isOpen hu
      have hqueued := hreg.queueLeftover hr hu (outcomesOf work.todo)
      have hlive : (s.queueLeftover r (outcomesOf work.todo)).Live r :=
        ⟨(allocated_queueLeftover ..).symm ▸ hr, (queueLeftover_call (hreg.closes r) hu _).2.trans hended⟩
      have hw := ht.leaves r _ rfl hp (.inl hended)
      have hleave : ∀ q : Progress, q.outcomes = [] → Accounts ((s.queueLeftover r (outcomesOf work.todo)).proceed r q) :=
        fun q hq => h.leave hopen hp (outcomesOf_outcomesOf _) hq hw
      split at hs
      · obtain ⟨held, hheld, rfl⟩ := Option.map_eq_some_iff.1 hs
        obtain ⟨held', hheld', -, hev⟩ := hqueued.hold state work.answers hlive
        obtain rfl := Option.some.inj (hheld'.symm.trans hheld)
        refine (hleave _ rfl).evicts hev.proceed fun k hk hk' => ?_
        rw [proceed, update_heap] at hk ⊢
        by_cases hkr : k = r
        · subst hkr
          rw [if_pos rfl]
          exact noOutcomeWaits_queueLeftover hopen (ht.ends k hended hk')
        · rw [if_neg hkr, queueLeftover_heap _ hopen, if_neg hkr] at hk ⊢
          exact ht.ends k hk hk'
      · obtain rfl := Option.some.inj hs
        refine h.of_call (r := r) (fun k hk => ?_) ?_
        · rw [retry, proceed, update_heap_ne hk]
          exact (rekey_heap ..).trans ((if_neg hk).trans ((queueLeftover_heap _ hopen k).trans (if_neg hk)))
        · have hdone : ∀ frame, (((s.queueLeftover r (outcomesOf work.todo)).heap r).await
              (some (.retrying frame))).Accounted := by
            intro frame
            have hcall := hleave (.retrying frame) rfl r
            rwa [proceed, update_heap_self] at hcall
          rw [retry, proceed, update_heap_self]
          change (HostCall.await _ ((Receiver.rekey _ _ _).heap r)).Accounted
          rw [rekey_heap, if_pos rfl]
          exact (hdone _).congr rfl rfl rfl .inl
  · next message work hp =>
    obtain rfl := Option.some.inj hs
    have hab : (s.heap r).abandoning = true := by simp [HostCall.abandoning, hp, Progress.isAbandoning]
    have hopen := (hreg.closes r).isOpen ((hreg.closes r).abandoning hab).2
    have hw := ht.leaves r _ rfl hp (.inr rfl)
    let error : Progress := .delivering (.error (some (s.heap r).clientId) INTERNAL_ERROR message)
    have hleave : Accounts ((s.queueLeftover r (outcomesOf work.todo)).proceed r error) :=
      h.leave hopen hp (outcomesOf_outcomesOf _) rfl hw
    have hopen' : ((s.queueLeftover r (outcomesOf work.todo)).heap r).lane.closed = false := by
      rw [queueLeftover_heap _ hopen, if_pos rfl]
      split <;> exact hopen
    refine hleave.of_call (r := r) (fun k hk => ?_) ?_
    · rw [dispatch_isOpen hopen', proceed, proceed, update_heap_ne hk, update_heap_ne hk, update_heap_ne hk]
    · rw [dispatch_isOpen hopen', proceed, update_heap_self, update_heap_self]
      have hcall := hleave r
      rw [proceed, update_heap_self] at hcall
      exact hcall.queue .close rfl (by rintro _ ⟨⟩)
  · cases hs

/-! ## Whole runs -/

theorem Accounts.step {s s' : Receiver} (h : Accounts s) (hreg : Registered MAX_IDLE_SESSIONS s) (hs : TimelyStep s s') :
    Accounts s' := by
  obtain ⟨a, hs, ht⟩ := hs
  cases a with
  | outbound frame session =>
    simp only [Receiver.step] at hs
    split at hs
    · obtain rfl := Option.some.inj hs
      exact h.outbound hreg.indexed ht.ends
    · cases hs
  | inbound frame related =>
    obtain rfl := Option.some.inj hs
    exact h.inbound hreg ht.ends
  | takeUp r =>
    refine h.takeUp hreg (fun hlive hended => ?_) hs
    have hwaits := ht.ends r hlive hended
    rwa [Act.waiting, if_pos rfl] at hwaits
  | takeItem r => exact h.takeItem hs
  | decided r answer => exact h.decided hs
  | cutOff r => exact h.cutOff hreg ht hs
  | unsent r => exact h.unsent hreg (ht.ends r) hs
  | finish r => exact h.finish hs

/-- **The host hands each outcome of a call on once, in the order of arrival, and all before the session is closed**, in
a run that ends no call while a round of it with outcomes waits, and leaves none to a job behind others. -/
theorem outcomes_once {capability : Members} {s : Receiver} (hr : Relation.ReflTransGen TimelyStep (new capability) s)
    (r : Nat) : outcomesOf (s.heap r).handed <+: (s.heap r).received ∧
      ((s.heap r).lane.running = some .closing ∨ (s.heap r).lane.closed = true →
        outcomesOf (s.heap r).handed = (s.heap r).received) ∧
      ((s.heap r).lane.running = none → (s.heap r).lane.queue = [] →
        outcomesOf (s.heap r).handed = (s.heap r).received) := by
  have hboth : Registered MAX_IDLE_SESSIONS s ∧ Accounts s := by
    induction hr with
    | refl => exact ⟨registered_new capability, accounts_new capability⟩
    | tail _ h ih =>
      obtain ⟨a, hs, -⟩ := id h
      exact ⟨ih.1.step ⟨a, hs⟩, ih.2.step ih.1 h⟩
  obtain ⟨hreg, hacc⟩ := hboth
  have hreceived := (hacc r).received
  have hall : (s.heap r).pending = [] → outcomesOf (s.heap r).handed = (s.heap r).received := by
    intro hnone
    rw [hreceived, hnone, List.append_nil]
  refine ⟨⟨_, hreceived.symm⟩, fun hclose => hall ?_, fun hrun hqueue => hall ?_⟩
  · have hclosing : (∃ p, (s.heap r).lane.running = some p ∧ p.isClosing = true) ∨ (s.heap r).lane.closed = true :=
      hclose.imp_left fun hrun => ⟨_, hrun, rfl⟩
    have hqueue := (hreg.closes r).queue_nil ((hreg.closes r).closing hclosing)
    rcases hclose with hrun | hclosed
    · rw [HostCall.pending, hrun, hqueue]
      rfl
    · rw [HostCall.pending, (hacc r).closed hclosed, hqueue]
      rfl
  · rw [HostCall.pending, hrun, hqueue]
    rfl

/-! ## A run that hands its outcome on, and two that do not -/

/-- A job that no one leaves outcomes to by ending its call. -/
def isSpared : Job → Bool
  | .follow frame => (outcomesOf (frameEvents frame)).isEmpty
  | _ => true

/-- Whether an act is in time, of the calls there are. -/
def inTime (s : Receiver) (a : Act) (s' : Receiver) : Bool :=
  (List.range s.allocated).all (fun r => (s.heap r).ended || !(s'.heap r).ended || (a.waiting s r).all isSpared) &&
    match a with
    | .cutOff r => ((s.heap r).lane.queue.flatMap Job.outcomes).isEmpty
    | _ => true

/-- The acts in turn, where each is in time. -/
def promptly (s : Receiver) : List Act → Bool
  | [] => true
  | a :: as => (s.step a).all fun s' => inTime s a s' && promptly s' as

theorem timely_of_inTime {s s' : Receiver} {a : Act} (hreg : Registered MAX_IDLE_SESSIONS s) (h : inTime s a s' = true) :
    Timely s a s' := by
  obtain ⟨hends, hleaves⟩ := Bool.and_eq_true_iff.1 h
  constructor
  · intro r hlive hended frame hin
    by_cases hr : r < s.allocated
    · have hspared := List.all_eq_true.1 hends r (List.mem_range.2 hr)
      rw [hlive, hended, Bool.false_or, Bool.not_true, Bool.false_or] at hspared
      exact List.isEmpty_iff.1 (List.all_eq_true.1 hspared _ hin)
    · -- a call that was never made has no lane
      have hnone : a.waiting s r = [] := by
        cases a with
        | takeUp k =>
          show (if k = r then (s.heap r).lane.queue.tail else (s.heap r).lane.queue) = []
          rw [hreg.unused r (Nat.not_lt.1 hr)]
          split <;> rfl
        | _ =>
          show (s.heap r).lane.queue = []
          rw [hreg.unused r (Nat.not_lt.1 hr)]
      rw [hnone] at hin
      cases hin
  · rintro r p rfl _ _ _
    exact List.isEmpty_iff.1 hleaves

theorem reachable_promptly {s s' : Receiver} {acts : List Act} (hreg : Registered MAX_IDLE_SESSIONS s)
    (hs : s.steps acts = some s') (hp : promptly s acts = true) : Relation.ReflTransGen TimelyStep s s' := by
  induction acts generalizing s with
  | nil =>
    obtain rfl := Option.some.inj hs
    exact .refl
  | cons a acts ih =>
    obtain ⟨after, ha, hs⟩ := Option.bind_eq_some_iff.1 hs
    rw [promptly, ha, Option.all_some, Bool.and_eq_true] at hp
    exact .head ⟨a, ha, timely_of_inTime hreg hp.1⟩ (ih (hreg.step ⟨a, ha⟩) hs hp.2)

def outcomeSample (id : String) : Json := .obj [(OUTCOME, .str (lit "success")), (ID, .str (lit id))]

/-- An answer of the tool's with these events. -/
def answerWith (more : Members) (id : RequestId) (event : Json) : Act :=
  .inbound (.response id ((META, .obj [(EXTENSION_ID, .obj [(EVENTS, .arr [event])])]) :: more)) none

/-- A round of the call. -/
def roundWith (state : String) : RequestId → Json → Act :=
  answerWith [(RESULT_TYPE, .str INPUT_REQUIRED), (REQUEST_STATE, .str (lit state))]

def openSample : Act := .outbound (.request (.int 1) TOOLS_CALL_METHOD (some [])) (lit "session-1")

/-- A round whose deadline leaves its outcome to a job of its own, a round worked through, and the final result. -/
def threeOutcomes : List Act :=
  [openSample, roundWith "one" (.int 1) (outcomeSample "a"), .takeUp 0, .cutOff 0, .finish 0, .takeUp 0, .takeItem 0,
    .finish 0, roundWith "two" (newId 0) (outcomeSample "b"), .takeUp 0, .takeItem 0, .cutOff 0, .finish 0,
    answerWith [] (newId 1) (outcomeSample "c"), .takeUp 0, .takeItem 0, .finish 0]

/-- Each outcome is handed on in turn, and then the session is closed. -/
theorem outcomes_once_three : ∃ s, (new []).steps threeOutcomes = some s ∧ (s.heap 0).lane.running = some .closing ∧
    (s.heap 0).received = [outcomeSample "a", outcomeSample "b", outcomeSample "c"] ∧
    outcomesOf (s.heap 0).handed = (s.heap 0).received := by
  have hend : ((new []).steps threeOutcomes).map (fun s => ((s.heap 0).lane.running, (s.heap 0).received)) =
      some (some .closing, [outcomeSample "a", outcomeSample "b", outcomeSample "c"]) := by decide
  have hprompt : promptly (new []) threeOutcomes = true := by decide
  obtain ⟨s, hs, hend⟩ := Option.map_eq_some_iff.1 hend
  obtain ⟨hrun, hreceived⟩ := Prod.mk.inj hend
  exact ⟨s, hs, hrun, hreceived, (outcomes_once (reachable_promptly (registered_new []) hs hprompt) 0).2.1 (.inl hrun)⟩

/-- A round that waits when its call is cancelled is dropped: the session is closed, and its outcome was handed to
nobody. -/
theorem ended_round_dropped : ¬ ∀ (capability : Members) (s : Receiver),
    Relation.ReflTransGen Step (new capability) s → ∀ r, (s.heap r).lane.running = some .closing →
      outcomesOf (s.heap r).handed = (s.heap r).received := by
  intro h
  have hdropped : ((new []).steps [openSample, roundWith "one" (.int 1) (outcomeSample "a"),
      .outbound (.notification CANCELLED_METHOD (some [(REQUEST_ID, .int 1)])) [], .takeUp 0, .takeUp 0]).map
      (fun s => ((s.heap 0).lane.running, (s.heap 0).handed, (s.heap 0).received)) =
        some (some .closing, [], [outcomeSample "a"]) := by decide
  obtain ⟨s, hs, hdropped⟩ := Option.map_eq_some_iff.1 hdropped
  obtain ⟨hrun, hboth⟩ := Prod.mk.inj hdropped
  obtain ⟨hhanded, hreceived⟩ := Prod.mk.inj hboth
  have hsame := h [] s (reachable_steps hs) 0 hrun
  rw [hhanded, hreceived] at hsame
  cases hsame

/-- Two rounds arrive before the first is worked through: what its deadline leaves is handed on after the second's. -/
theorem leftover_out_of_order : ∃ s, Relation.ReflTransGen Step (new []) s ∧
    (s.heap 0).received = [outcomeSample "a", outcomeSample "b"] ∧
      (s.heap 0).handed = [outcomeSample "b", outcomeSample "a"] := by
  have hlate : ((new []).steps [openSample, roundWith "one" (.int 1) (outcomeSample "a"),
      roundWith "two" (.int 1) (outcomeSample "b"), .takeUp 0, .cutOff 0, .finish 0, .takeUp 0, .takeItem 0, .cutOff 0,
      .finish 0, .takeUp 0, .takeItem 0]).map (fun s => ((s.heap 0).received, (s.heap 0).handed)) =
        some ([outcomeSample "a", outcomeSample "b"], [outcomeSample "b", outcomeSample "a"]) := by decide
  obtain ⟨s, hs, hlate⟩ := Option.map_eq_some_iff.1 hlate
  obtain ⟨hreceived, hhanded⟩ := Prod.mk.inj hlate
  exact ⟨s, reachable_steps hs, hreceived, hhanded⟩

end Receiver

end AuditableMcp
