import Mathlib.Data.List.Nodup
import Mathlib.Logic.Relation
/-!
# `mcp/seam.py`: the outbound queue of a `_FrameSeam` (`:446-464`, `:575-614`)

The frames a seam writes join the queue its session writes to. The pump tells the two apart by identity: a message
the seam sends is registered in `_own_frames` before the send, and the pump passes a registered message on as it is,
and every other through `_outbound`.

| here | there |
| --- | --- |
| `Message`    | a `SessionMessage` object: its `id()`, its frame, and who made it, which no code reads |
| `FrameSeam`  | `_own_frames`, the stream (its buffer of one, then the senders that wait), the message the pump holds |
| `sendFrame`, `sendFails`, `withdraw` | `_send_frame` (`:601-614`): its message queued; its send cancelled or raising before that, or while it waits |
| `take`, `pass` | one iteration of `_pump_outbound` (`:575-597`), around its awaits |

An identity is that of one live message at a time, and may be that of another once the message is freed. A send that
fails leaves the identity of its message registered: the session's next message of that identity leaves as the
seam's own (`freed_identity_bypasses`), and only such a message does (`frames_routed`).
-/
namespace AuditableMcp

/-- A message object. -/
structure Message (F : Type) where
  identity : Nat
  frame : F
  ofSeam : Bool
deriving DecidableEq

/-- A message the pump is done with, whether through `_outbound`, and what it wrote to the peer for it. -/
structure Pumped (F : Type) where
  message : Message F
  hooked : Bool
  written : List F
deriving DecidableEq

structure FrameSeam (F : Type) where
  ownFrames : List Nat
  queue : List (Message F)
  /-- The message the pump holds, and whether it goes through `_outbound`. -/
  pumping : Option (Message F × Bool)
  handled : List (Pumped F)
deriving DecidableEq

namespace FrameSeam

variable {F : Type}

def start : FrameSeam F := ⟨[], [], none, []⟩

/-- The messages that are not freed. -/
def live (s : FrameSeam F) : List (Message F) := (s.pumping.map Prod.fst).toList ++ s.queue

/-- `self._own_frames.add(id(message))`. -/
def register (i : Nat) (s : FrameSeam F) : FrameSeam F := { s with ownFrames := s.ownFrames.insert i }

/-- One step of a seam: of its tasks, its session's, or the peer's. What `_outbound` makes of a frame is any. -/
inductive Step : FrameSeam F → FrameSeam F → Prop
  | sendFrame {s : FrameSeam F} (m : Message F) : m.ofSeam = true → (∀ a ∈ s.live, a.identity ≠ m.identity) →
      Step s { s.register m.identity with queue := s.queue ++ [m] }
  | sendFails {s : FrameSeam F} (m : Message F) : m.ofSeam = true → (∀ a ∈ s.live, a.identity ≠ m.identity) →
      Step s (s.register m.identity)
  | write {s : FrameSeam F} (m : Message F) : m.ofSeam = false → (∀ a ∈ s.live, a.identity ≠ m.identity) →
      Step s { s with queue := s.queue ++ [m] }
  /-- A sender that waits behind the buffered message gives up. -/
  | withdraw {s : FrameSeam F} (first : Message F) (before : List (Message F)) (m : Message F) (after : List (Message F)) :
      s.queue = first :: before ++ m :: after → Step s { s with queue := first :: before ++ after }
  | take {s : FrameSeam F} (m : Message F) (rest : List (Message F)) : s.pumping = none → s.queue = m :: rest →
      Step s { s with
        queue := rest
        ownFrames := s.ownFrames.erase m.identity
        pumping := some (m, !s.ownFrames.contains m.identity) }
  | pass {s : FrameSeam F} (m : Message F) (hooked : Bool) (forward : Option F) : s.pumping = some (m, hooked) →
      Step s { s with
        pumping := none
        handled := s.handled ++ [⟨m, hooked, if hooked then forward.toList else [m.frame]⟩] }

/-- A step in which the session's message, if there is one, has no identity that is still registered. -/
inductive Heeded : FrameSeam F → FrameSeam F → Prop
  | mk {s s' : FrameSeam F} : Step s s' →
      (∀ m, m.ofSeam = false → s' = { s with queue := s.queue ++ [m] } → m.identity ∉ s.ownFrames) → Heeded s s'

/-! ## What the pump makes of a message -/

/-- Each of the seam's own messages is registered while it is queued, and goes out as it is. -/
structure OwnDirect (s : FrameSeam F) : Prop where
  distinct : (s.live.map (·.identity)).Nodup
  once : s.ownFrames.Nodup
  queued : ∀ m ∈ s.queue, m.ofSeam = true → m.identity ∈ s.ownFrames
  pumping : ∀ m hooked, s.pumping = some (m, hooked) → m.ofSeam = true → hooked = false
  handled : ∀ e ∈ s.handled, e.message.ofSeam = true → e.hooked = false ∧ e.written = [e.message.frame]

/-- Each of the session's messages goes through `_outbound`. -/
structure SessionHooked (s : FrameSeam F) : Prop where
  queued : ∀ m ∈ s.queue, m.ofSeam = false → m.identity ∉ s.ownFrames
  pumping : ∀ m hooked, s.pumping = some (m, hooked) → m.ofSeam = false → hooked = true
  handled : ∀ e ∈ s.handled, e.message.ofSeam = false → e.hooked = true

theorem live_map (s : FrameSeam F) :
    s.live.map (·.identity) = (s.pumping.map (·.1.identity)).toList ++ s.queue.map (·.identity) := by
  cases h : s.pumping <;> simp [live, h]

theorem ownDirect_start : OwnDirect (start : FrameSeam F) where
  distinct := List.nodup_nil
  once := List.nodup_nil
  queued := by rintro _ ⟨⟩
  pumping := by rintro _ _ ⟨⟩
  handled := by rintro _ ⟨⟩

theorem sessionHooked_start : SessionHooked (start : FrameSeam F) where
  queued := by rintro _ ⟨⟩
  pumping := by rintro _ _ ⟨⟩
  handled := by rintro _ ⟨⟩

/-- A message joins the queue under an identity of its own. -/
theorem distinct_queue {s : FrameSeam F} {m : Message F} (hd : (s.live.map (·.identity)).Nodup)
    (hfresh : ∀ a ∈ s.live, a.identity ≠ m.identity) (own : List Nat) :
    (({ s with ownFrames := own, queue := s.queue ++ [m] } : FrameSeam F).live.map (·.identity)).Nodup := by
  have hlive : ({ s with ownFrames := own, queue := s.queue ++ [m] } : FrameSeam F).live = s.live ++ [m] := by
    simp [live]
  rw [hlive, List.map_append]
  refine List.nodup_append.2 ⟨hd, List.nodup_singleton _, ?_⟩
  rintro _ ha _ hb rfl
  obtain ⟨a, hin, heq⟩ := List.mem_map.1 ha
  obtain rfl := List.mem_singleton.1 hb
  exact hfresh a hin heq

theorem OwnDirect.step {s s' : FrameSeam F} (hi : OwnDirect s) (h : Step s s') : OwnDirect s' := by
  cases h with
  | sendFrame m hm hfresh =>
    refine ⟨distinct_queue hi.distinct hfresh _, hi.once.insert, fun a ha hown => ?_, hi.pumping, hi.handled⟩
    rcases List.mem_append.1 ha with ha | ha
    · exact List.mem_insert_of_mem (hi.queued a ha hown)
    · obtain rfl := List.mem_singleton.1 ha
      exact List.mem_insert_self
  | sendFails m hm hfresh =>
    exact ⟨hi.distinct, hi.once.insert, fun a ha hown => List.mem_insert_of_mem (hi.queued a ha hown), hi.pumping, hi.handled⟩
  | write m hm hfresh =>
    refine ⟨distinct_queue hi.distinct hfresh _, hi.once, fun a ha hown => ?_, hi.pumping, hi.handled⟩
    rcases List.mem_append.1 ha with ha | ha
    · exact hi.queued a ha hown
    · obtain rfl := List.mem_singleton.1 ha
      rw [hm] at hown
      cases hown
  | withdraw first before m after hq =>
    have hsub : (first :: before ++ after).Sublist s.queue := by
      rw [hq]
      exact (List.Sublist.refl _).append (List.sublist_cons_self m after)
    refine ⟨?_, hi.once, fun a ha hown => hi.queued a (hsub.subset ha) hown, hi.pumping, hi.handled⟩
    rw [live_map]
    have hd := hi.distinct
    rw [live_map] at hd
    exact hd.sublist ((List.Sublist.refl _).append (hsub.map _))
  | take m rest hnone hq =>
    have hd := hi.distinct
    rw [live_map, hnone, hq] at hd
    refine ⟨?_, hi.once.erase _, fun a ha hown => ?_, ?_, hi.handled⟩
    · rw [live_map]
      exact hd
    · have hne : a.identity ≠ m.identity := by
        intro heq
        exact (List.nodup_cons.1 hd).1 (List.mem_map.2 ⟨a, ha, heq⟩)
      exact (List.mem_erase_of_ne hne).2 (hi.queued a (hq ▸ List.mem_cons_of_mem m ha) hown)
    · rintro a hooked heq hown
      obtain ⟨rfl, rfl⟩ := Prod.mk.inj (Option.some.inj heq)
      have hin := hi.queued m (hq ▸ List.mem_cons_self) hown
      simpa using hin
  | pass m hooked forward hp =>
    have hd := hi.distinct
    rw [live_map] at hd
    refine ⟨?_, hi.once, hi.queued, by rintro _ _ ⟨⟩, fun e he hown => ?_⟩
    · rw [live_map]
      exact hd.sublist (List.sublist_append_right _ _)
    · rcases List.mem_append.1 he with he | he
      · exact hi.handled e he hown
      · obtain rfl := List.mem_singleton.1 he
        have hnot := hi.pumping m hooked hp hown
        subst hnot
        exact ⟨rfl, rfl⟩

theorem SessionHooked.step {s s' : FrameSeam F} (hi : SessionHooked s) (h : Heeded s s') :
    SessionHooked s' := by
  obtain ⟨h, hheed⟩ := h
  cases h with
  | sendFrame m hm hfresh =>
    refine ⟨fun a ha hsession hin => ?_, hi.pumping, hi.handled⟩
    rcases List.mem_append.1 ha with ha | ha
    · rcases List.mem_insert_iff.1 hin with heq | hin
      · exact hfresh a (List.mem_append_right _ ha) heq
      · exact hi.queued a ha hsession hin
    · obtain rfl := List.mem_singleton.1 ha
      rw [hm] at hsession
      cases hsession
  | sendFails m hm hfresh =>
    refine ⟨fun a ha hsession hin => ?_, hi.pumping, hi.handled⟩
    rcases List.mem_insert_iff.1 hin with heq | hin
    · exact hfresh a (List.mem_append_right _ ha) heq
    · exact hi.queued a ha hsession hin
  | write m hm hfresh =>
    refine ⟨fun a ha hsession => ?_, hi.pumping, hi.handled⟩
    rcases List.mem_append.1 ha with ha | ha
    · exact hi.queued a ha hsession
    · obtain rfl := List.mem_singleton.1 ha
      exact hheed a hm rfl
  | withdraw first before m after hq =>
    refine ⟨fun a ha => hi.queued a ?_, hi.pumping, hi.handled⟩
    rw [hq]
    exact ((List.Sublist.refl _).append (List.sublist_cons_self m after)).subset ha
  | take m rest hnone hq =>
    refine ⟨fun a ha hsession hin => ?_, ?_, hi.handled⟩
    · exact hi.queued a (hq ▸ List.mem_cons_of_mem m ha) hsession (List.mem_of_mem_erase hin)
    · rintro a hooked heq hsession
      obtain ⟨rfl, rfl⟩ := Prod.mk.inj (Option.some.inj heq)
      have hnot := hi.queued m (hq ▸ List.mem_cons_self) hsession
      simpa using hnot
  | pass m hooked forward hp =>
    refine ⟨hi.queued, by rintro _ _ ⟨⟩, fun e he hsession => ?_⟩
    rcases List.mem_append.1 he with he | he
    · exact hi.handled e he hsession
    · obtain rfl := List.mem_singleton.1 he
      exact hi.pumping m hooked hp hsession

/-! ## Whole runs -/

/-- Whatever is freed and reused, the seam's own frames leave as it queued them. -/
theorem ownDirect_run {s : FrameSeam F} (hr : Relation.ReflTransGen Step start s) : OwnDirect s := by
  induction hr with
  | refl => exact ownDirect_start
  | tail _ h ih => exact ih.step h

/-- **Only the seam's own frames bypass the hook**, where no message of the session has the identity of one whose
send the seam gave up. -/
theorem frames_routed {s : FrameSeam F} (hr : Relation.ReflTransGen Heeded start s) : ∀ e ∈ s.handled,
    e.hooked = !e.message.ofSeam ∧ (e.message.ofSeam = true → e.written = [e.message.frame]) := by
  have hboth : OwnDirect s ∧ SessionHooked s := by
    induction hr with
    | refl => exact ⟨ownDirect_start, sessionHooked_start⟩
    | tail _ h ih => exact ⟨ih.1.step h.1, ih.2.step h⟩
  obtain ⟨hown, hsession⟩ := hboth
  intro e he
  cases hm : e.message.ofSeam with
  | true => exact ⟨(hown.handled e he hm).1, fun _ => (hown.handled e he hm).2⟩
  | false => exact ⟨hsession.handled e he hm, by rintro ⟨⟩⟩

/-- One attempt's send is cancelled while it waits behind the session's message and another's fails, so that both
stay registered; the third goes out, and the session's answer behind it. -/
theorem frames_routed_withdrawn :
    ∃ s : FrameSeam String, Relation.ReflTransGen Heeded start s ∧ s.ownFrames = [3, 2] ∧
      s.handled.map (·.message.identity) = [1, 4, 5] ∧
        ∀ e ∈ s.handled, e.hooked = !e.message.ofSeam ∧ (e.message.ofSeam = true → e.written = [e.message.frame]) := by
  let progress : Message String := ⟨1, "notifications/progress", false⟩
  let withdrawn : Message String := ⟨2, "audit/attempt", true⟩
  let failed : Message String := ⟨3, "audit/attempt", true⟩
  let attempt : Message String := ⟨4, "audit/attempt", true⟩
  let answer : Message String := ⟨5, "result", false⟩
  have hrun : Relation.ReflTransGen Heeded start
      (⟨[3, 2], [], none, [⟨progress, true, ["notifications/progress"]⟩, ⟨attempt, false, ["audit/attempt"]⟩,
        ⟨answer, true, ["result"]⟩]⟩ : FrameSeam String) := by
    refine .head (.mk (.write progress rfl (by decide)) fun m _ heq => by simp [start]) ?_
    refine .head (.mk (.sendFrame withdrawn rfl (by decide)) fun m _ heq => ?_) ?_
    · cases congrArg ownFrames heq
    refine .head (.mk (.withdraw progress [] withdrawn [] rfl) fun m _ heq => ?_) ?_
    · cases congrArg queue heq
    refine .head (.mk (.sendFails failed rfl (by decide)) fun m _ heq => ?_) ?_
    · cases congrArg ownFrames heq
    refine .head (.mk (.sendFrame attempt rfl (by decide)) fun m _ heq => ?_) ?_
    · cases congrArg ownFrames heq
    refine .head (.mk (.take progress [attempt] rfl rfl) fun m _ heq => ?_) ?_
    · cases congrArg pumping heq
    refine .head (.mk (.pass progress true (some "notifications/progress") rfl) fun m _ heq => ?_) ?_
    · cases congrArg pumping heq
    refine .head (.mk (.take attempt [] rfl rfl) fun m _ heq => ?_) ?_
    · cases congrArg pumping heq
    refine .head (.mk (.write answer rfl (by decide)) fun m _ heq => ?_) ?_
    · obtain rfl := List.singleton_inj.1 (congrArg queue heq)
      decide
    refine .head (.mk (.pass attempt false none rfl) fun m _ heq => ?_) ?_
    · cases congrArg pumping heq
    refine .head (.mk (.take answer [] rfl rfl) fun m _ heq => ?_) ?_
    · cases congrArg pumping heq
    refine .single (.mk (.pass answer true (some "result") rfl) fun m _ heq => ?_)
    cases congrArg pumping heq
  exact ⟨_, hrun, rfl, rfl, frames_routed hrun⟩

/-- The queue is full with the session's first message when the send of an attempt is cancelled. Its message is
freed, the session's result is given its identity, and leaves past the hook. -/
theorem freed_identity_bypasses :
    ¬ ∀ s : FrameSeam String, Relation.ReflTransGen Step start s → ∀ e ∈ s.handled,
      e.message.ofSeam = false → e.hooked = true := by
  intro h
  let first : Message String := ⟨1, "notification", false⟩
  let result : Message String := ⟨7, "result", false⟩
  have hrun : Relation.ReflTransGen Step start
      (⟨[], [], none, [⟨first, true, ["notification"]⟩, ⟨result, false, ["result"]⟩]⟩ : FrameSeam String) :=
    .head (.write first rfl nofun) <|
    .head (.sendFails ⟨7, "audit/attempt", true⟩ rfl (by decide)) <|
    .head (.take first [] rfl rfl) <|
    .head (.pass first true (some "notification") rfl) <|
    .head (.write result rfl nofun) <|
    .head (.take result [] rfl rfl) <|
    .single (.pass result false none rfl)
  cases h _ hrun ⟨result, false, ["result"]⟩ (by decide) rfl

end FrameSeam

end AuditableMcp
