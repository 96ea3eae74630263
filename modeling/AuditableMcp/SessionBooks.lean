import AuditableMcp.ToolSeam
import Mathlib.Data.Finset.Card
/-!
# One numbering for each audit session (`mcp/seam.py:1141-1294`)

What the seam keeps of the audit sessions (`SessionBooks`) is touched by three moves alone: a request joins the session
it names, a request is released, and a session that has waited too long is evicted (`BookMove`). `Kept` holds through
each of them, so it holds after every act of a connection that is not closed (`one_numbering`).
-/
namespace AuditableMcp

open JsonValue

/-- What the books have of a request. -/
structure Booked where
  audit : Option Nat
  capability : Option AuditCapability
  declared : Option AuditCapability
  released : Bool
deriving DecidableEq

structure SessionBooks where
  requests : Nat → Booked
  requestCount : Nat
  sessions : Nat → AuditSession
  sessionCount : Nat
  tracked : Dict Str Nat
  idle : Dict Str Nat

namespace SessionBooks

variable {b : SessionBooks}

/-- The requests of a session that are not released. -/
def unreleased (b : SessionBooks) (g : Nat) : Finset Nat :=
  {c ∈ Finset.range b.requestCount | (b.requests c).audit = some g ∧ (b.requests c).released = false}

@[simp] theorem mem_unreleased {g c : Nat} : c ∈ b.unreleased g ↔
    c < b.requestCount ∧ (b.requests c).audit = some g ∧ (b.requests c).released = false := by
  simp [unreleased]

/-- A session has the declaration of the first request that named it. -/
def FirstDeclared (b : SessionBooks) (g : Nat) : Prop :=
  ∃ d, (b.requests d).audit = some g ∧ (∀ e < d, (b.requests e).audit ≠ some g) ∧
    (b.sessions g).hostCapability = (b.requests d).declared

/-- What holds of the tables, but for the number of idle sessions. -/
structure Sound (b : SessionBooks) : Prop where
  referred : ∀ c g, (b.requests c).audit = some g → c < b.requestCount ∧ g < b.sessionCount
  named : ∀ name g, b.tracked.get name = some g → g < b.sessionCount ∧ (b.sessions g).sessionId = name
  counted : ∀ name g, b.tracked.get name = some g → (b.sessions g).live = (b.unreleased g).card
  held : ∀ c g, (b.requests c).audit = some g → (b.requests c).released = false →
    b.tracked.get (b.sessions g).sessionId = some g
  declared : ∀ c g, (b.requests c).audit = some g → (b.requests c).capability = (b.sessions g).hostCapability
  first : ∀ g < b.sessionCount, b.FirstDeclared g
  idle_iff : ∀ name g, b.idle.get name = some g ↔ b.tracked.get name = some g ∧ (b.sessions g).live = 0

/-! ## Evictions -/

/-- An idle session goes. -/
def evict (name : Str) (b : SessionBooks) : SessionBooks :=
  { b with idle := b.idle.pop name, tracked := b.tracked.pop name }

def evictIdle : Nat → SessionBooks → SessionBooks
  | 0, b => b
  | turns + 1, b =>
    if b.idle.items.length ≤ MAX_IDLE then b
    else match b.idle.items with
      | (evicted, _) :: _ => evictIdle turns (b.evict evicted)
      | [] => b

/-- An idle session has no request that is not released. -/
theorem Sound.unreleased_idle (h : b.Sound) {name : Str} {g : Nat} (hidle : b.idle.get name = some g) :
    b.unreleased g = ∅ := by
  obtain ⟨htracked, hlive⟩ := (h.idle_iff name g).1 hidle
  have hcard := h.counted name g htracked
  rw [hlive] at hcard
  exact Finset.card_eq_zero.1 (by omega)

theorem Sound.evict (h : b.Sound) {name : Str} {g : Nat} (hidle : b.idle.get name = some g) : (b.evict name).Sound := by
  have hnone := h.unreleased_idle hidle
  have htracked := ((h.idle_iff name g).1 hidle).1
  constructor
  · exact h.referred
  · intro other k hget
    by_cases hname : other = name
    · subst hname
      simp [SessionBooks.evict] at hget
    · exact h.named other k ((Dict.get_pop_ne _ hname).symm.trans hget)
  · intro other k hget
    by_cases hname : other = name
    · subst hname
      simp [SessionBooks.evict] at hget
    · exact h.counted other k ((Dict.get_pop_ne _ hname).symm.trans hget)
  · intro c k haudit hout
    have hget := h.held c k haudit hout
    have hne : (b.sessions k).sessionId ≠ name := by
      intro heq
      rw [heq, htracked] at hget
      obtain rfl := Option.some.inj hget
      have hmem : c ∈ b.unreleased g := mem_unreleased.2 ⟨(h.referred c g haudit).1, haudit, hout⟩
      simp [hnone] at hmem
    exact (Dict.get_pop_ne _ hne).trans hget
  · exact h.declared
  · exact h.first
  · intro other k
    by_cases hname : other = name
    · subst hname
      simp [SessionBooks.evict]
    · simpa [SessionBooks.evict, Dict.get_pop_ne _ hname] using h.idle_iff other k

/-- The loop ends with room, having evicted no session with a live request. -/
theorem Sound.evictIdle (turns : Nat) (h : b.Sound) (hturns : b.idle.items.length ≤ MAX_IDLE + turns) :
    (b.evictIdle turns).Sound ∧ (b.evictIdle turns).idle.items.length ≤ MAX_IDLE := by
  induction turns generalizing b with
  | zero => exact ⟨h, hturns⟩
  | succ turns ih =>
    simp only [SessionBooks.evictIdle]
    split
    · next hroom => exact ⟨h, hroom⟩
    · next hfull =>
      cases hitems : b.idle.items with
      | nil => simp [hitems] at hfull
      | cons i items =>
        obtain ⟨name, g⟩ := i
        have hget : b.idle.get name = some g := Dict.get_eq_some.2 (by simp [hitems])
        have hshort : (b.evict name).idle.items.length < b.idle.items.length := Dict.length_pop_lt hget
        exact ih (h.evict hget) (by omega)

/-! ## Releases -/

/-- A request is released, and its session has one less. -/
def lessOne (g c : Nat) (b : SessionBooks) : SessionBooks :=
  { b with
    requests := Function.update b.requests c { b.requests c with released := true }
    sessions := Function.update b.sessions g { b.sessions g with live := (b.sessions g).live - 1 } }

def keepIdle (g : Nat) (b : SessionBooks) : SessionBooks :=
  let kept := { b with idle := (b.idle.pop (b.sessions g).sessionId).set (b.sessions g).sessionId g }
  evictIdle kept.idle.items.length kept

def release (final : Bool) (c : Nat) (b : SessionBooks) : SessionBooks :=
  match (b.requests c).audit with
  | none => b
  | some g =>
    if (b.requests c).released then b
    else
      let less := b.lessOne g c
      if 0 < (less.sessions g).live then less
      else if final then
        { less with
          tracked := less.tracked.pop (less.sessions g).sessionId
          idle := less.idle.pop (less.sessions g).sessionId }
      else less.keepIdle g

@[simp] theorem lessOne_sessionId (g c k : Nat) : ((b.lessOne g c).sessions k).sessionId = (b.sessions k).sessionId := by
  by_cases hk : k = g
  · subst hk
    simp [lessOne]
  · simp [lessOne, hk]

@[simp] theorem lessOne_hostCapability (g c k : Nat) :
    ((b.lessOne g c).sessions k).hostCapability = (b.sessions k).hostCapability := by
  by_cases hk : k = g
  · subst hk
    simp [lessOne]
  · simp [lessOne, hk]

@[simp] theorem lessOne_audit (g c d : Nat) : ((b.lessOne g c).requests d).audit = (b.requests d).audit := by
  by_cases hd : d = c
  · subst hd
    simp [lessOne]
  · simp [lessOne, hd]

@[simp] theorem lessOne_capability (g c d : Nat) :
    ((b.lessOne g c).requests d).capability = (b.requests d).capability := by
  by_cases hd : d = c
  · subst hd
    simp [lessOne]
  · simp [lessOne, hd]

@[simp] theorem lessOne_declared (g c d : Nat) :
    ((b.lessOne g c).requests d).declared = (b.requests d).declared := by
  by_cases hd : d = c
  · subst hd
    simp [lessOne]
  · simp [lessOne, hd]

@[simp] theorem firstDeclared_lessOne (g c k : Nat) : (b.lessOne g c).FirstDeclared k ↔ b.FirstDeclared k := by
  simp [FirstDeclared]

theorem lessOne_released (g c d : Nat) :
    ((b.lessOne g c).requests d).released = false ↔ d ≠ c ∧ (b.requests d).released = false := by
  by_cases hd : d = c
  · subst hd
    simp [lessOne]
  · simp [lessOne, hd]

theorem unreleased_lessOne (g c k : Nat) : (b.lessOne g c).unreleased k = (b.unreleased k).erase c := by
  ext d
  have hcount : (b.lessOne g c).requestCount = b.requestCount := rfl
  rw [Finset.mem_erase, mem_unreleased, mem_unreleased, lessOne_released, lessOne_audit, hcount]
  tauto

/-- The books after a release, before the session is kept or goes: only whether it is idle is open. -/
structure Between (g : Nat) (b : SessionBooks) : Prop where
  referred : ∀ c g, (b.requests c).audit = some g → c < b.requestCount ∧ g < b.sessionCount
  named : ∀ name g, b.tracked.get name = some g → g < b.sessionCount ∧ (b.sessions g).sessionId = name
  counted : ∀ name g, b.tracked.get name = some g → (b.sessions g).live = (b.unreleased g).card
  held : ∀ c g, (b.requests c).audit = some g → (b.requests c).released = false →
    b.tracked.get (b.sessions g).sessionId = some g
  declared : ∀ c g, (b.requests c).audit = some g → (b.requests c).capability = (b.sessions g).hostCapability
  first : ∀ k < b.sessionCount, k ≠ g → b.FirstDeclared k
  tracked : b.tracked.get (b.sessions g).sessionId = some g
  notIdle : b.idle.get (b.sessions g).sessionId = none
  idle_iff : ∀ name k, name ≠ (b.sessions g).sessionId →
    (b.idle.get name = some k ↔ b.tracked.get name = some k ∧ (b.sessions k).live = 0)

theorem Sound.lessOne (h : b.Sound) {c g : Nat} (haudit : (b.requests c).audit = some g)
    (hout : (b.requests c).released = false) : (b.lessOne g c).Between g := by
  have htracked := h.held c g haudit hout
  have hmem : c ∈ b.unreleased g := mem_unreleased.2 ⟨(h.referred c g haudit).1, haudit, hout⟩
  have hcard : (b.sessions g).live = (b.unreleased g).card := h.counted _ g htracked
  have hone : 0 < (b.unreleased g).card := Finset.card_pos.2 ⟨c, hmem⟩
  -- another session has another name, so neither its count nor its requests change
  have hother : ∀ name k, b.tracked.get name = some k → k ≠ g → c ∉ b.unreleased k ∧
      ((b.lessOne g c).sessions k).live = (b.sessions k).live := by
    intro name k _ hk
    refine ⟨?_, by simp [SessionBooks.lessOne, hk]⟩
    intro hc
    have hsame : some k = some g := (mem_unreleased.1 hc).2.1.symm.trans haudit
    exact hk (Option.some.inj hsame)
  constructor
  · intro d k hd
    rw [lessOne_audit] at hd
    exact h.referred d k hd
  · intro name k hk
    rw [lessOne_sessionId]
    exact h.named name k hk
  · intro name k hk
    rw [unreleased_lessOne]
    by_cases hg : k = g
    · subst hg
      rw [Finset.card_erase_of_mem hmem]
      simp only [SessionBooks.lessOne, Function.update_self]
      omega
    · obtain ⟨hnot, hlive⟩ := hother name k hk hg
      rw [Finset.erase_eq_of_notMem hnot, hlive]
      exact h.counted name k hk
  · intro d k hd hdout
    rw [lessOne_audit] at hd
    rw [lessOne_sessionId]
    exact h.held d k hd ((lessOne_released g c d).1 hdout).2
  · intro d k hd
    rw [lessOne_audit] at hd
    rw [lessOne_capability, lessOne_hostCapability]
    exact h.declared d k hd
  · intro k hk _
    exact (firstDeclared_lessOne g c k).2 (h.first k hk)
  · rw [lessOne_sessionId]
    exact htracked
  · rw [lessOne_sessionId]
    refine Option.eq_none_iff_forall_ne_some.2 ?_
    intro k hk
    obtain ⟨hk, hlive⟩ := (h.idle_iff _ k).1 hk
    obtain rfl := Option.some.inj (hk.symm.trans htracked)
    omega
  · intro name k hname
    rw [lessOne_sessionId] at hname
    by_cases hg : k = g
    · subst hg
      have hidle : ¬ b.idle.get name = some k := fun hidle =>
        hname (h.named name k ((h.idle_iff name k).1 hidle).1).2.symm
      have hnone : ¬ b.tracked.get name = some k := fun hget => hname (h.named name k hget).2.symm
      exact ⟨fun hidle' => absurd hidle' hidle, fun hget => absurd hget.1 hnone⟩
    · have hlive : ((b.lessOne g c).sessions k).live = (b.sessions k).live := by simp [SessionBooks.lessOne, hg]
      rw [hlive]
      exact h.idle_iff name k

theorem Between.first_all (h : b.Between g) (hfirst : b.FirstDeclared g) : ∀ k < b.sessionCount, b.FirstDeclared k := by
  intro k hk
  by_cases hg : k = g
  · exact hg ▸ hfirst
  · exact h.first k hk hg

theorem Between.live (h : b.Between g) (hfirst : b.FirstDeclared g) (hlive : 0 < (b.sessions g).live) : b.Sound := by
  refine ⟨h.referred, h.named, h.counted, h.held, h.declared, h.first_all hfirst, ?_⟩
  intro name k
  by_cases hname : name = (b.sessions g).sessionId
  · subst hname
    rw [h.notIdle, h.tracked]
    refine ⟨nofun, ?_⟩
    rintro ⟨hk, hzero⟩
    obtain rfl := Option.some.inj hk
    omega
  · exact h.idle_iff name k hname

theorem Between.unreleased (h : b.Between g) (hlive : ¬ 0 < (b.sessions g).live) : b.unreleased g = ∅ := by
  have hcard := h.counted _ g h.tracked
  exact Finset.card_eq_zero.1 (by omega)

theorem Between.final (h : b.Between g) (hfirst : b.FirstDeclared g) (hlive : ¬ 0 < (b.sessions g).live) :
    ({ b with
      tracked := b.tracked.pop (b.sessions g).sessionId
      idle := b.idle.pop (b.sessions g).sessionId } : SessionBooks).Sound := by
  have hnone := h.unreleased hlive
  constructor
  · exact h.referred
  · intro name k hk
    by_cases hname : name = (b.sessions g).sessionId
    · subst hname
      simp at hk
    · exact h.named name k ((Dict.get_pop_ne _ hname).symm.trans hk)
  · intro name k hk
    by_cases hname : name = (b.sessions g).sessionId
    · subst hname
      simp at hk
    · exact h.counted name k ((Dict.get_pop_ne _ hname).symm.trans hk)
  · intro d k hd hout
    have hget := h.held d k hd hout
    have hne : (b.sessions k).sessionId ≠ (b.sessions g).sessionId := by
      intro heq
      rw [heq, h.tracked] at hget
      obtain rfl := Option.some.inj hget
      have hmem : d ∈ b.unreleased g := mem_unreleased.2 ⟨(h.referred d g hd).1, hd, hout⟩
      simp [hnone] at hmem
    exact (Dict.get_pop_ne _ hne).trans hget
  · exact h.declared
  · exact h.first_all hfirst
  · intro name k
    by_cases hname : name = (b.sessions g).sessionId
    · subst hname
      simp
    · simpa [Dict.get_pop_ne _ hname] using h.idle_iff name k hname

theorem Between.idle (h : b.Between g) (hfirst : b.FirstDeclared g) (hlive : ¬ 0 < (b.sessions g).live) :
    ({ b with idle := (b.idle.pop (b.sessions g).sessionId).set (b.sessions g).sessionId g } : SessionBooks).Sound := by
  have hzero : (b.sessions g).live = 0 := by
    have hcard := h.counted _ g h.tracked
    omega
  refine ⟨h.referred, h.named, h.counted, h.held, h.declared, h.first_all hfirst, ?_⟩
  intro name k
  by_cases hname : name = (b.sessions g).sessionId
  · subst hname
    rw [Dict.get_set_self, h.tracked]
    refine ⟨?_, fun hk => hk.1⟩
    intro hk
    obtain rfl := Option.some.inj hk
    exact ⟨rfl, hzero⟩
  · rw [Dict.get_set_ne _ hname, Dict.get_pop_ne _ hname]
    exact h.idle_iff name k hname

/-- What holds of the books after every move. -/
structure Kept (b : SessionBooks) : Prop extends b.Sound where
  few : b.idle.items.length ≤ MAX_IDLE

theorem Kept.release (h : b.Kept) (final : Bool) (c : Nat) : (b.release final c).Kept := by
  unfold SessionBooks.release
  split
  · exact h
  · next g haudit =>
    split
    · exact h
    · next hout =>
      have hbetween := h.toSound.lessOne haudit (Bool.eq_false_iff.2 hout)
      have hfirst := (firstDeclared_lessOne g c g).2 (h.first g (h.referred c g haudit).2)
      dsimp only
      split
      · next hlive => exact ⟨hbetween.live hfirst hlive, h.few⟩
      · next hlive =>
        split
        · exact ⟨hbetween.final hfirst hlive, Nat.le_trans (Dict.length_pop_le _ _) h.few⟩
        · have hkept := (hbetween.idle hfirst hlive).evictIdle _ (Nat.le_add_left _ _)
          exact ⟨hkept.1, hkept.2⟩

/-! ## Requests -/

/-- A session starts, under the declaration of its first request. -/
def start (declared : Option AuditCapability) (name : Str) (b : SessionBooks) : SessionBooks :=
  { b with
    sessions := Function.update b.sessions b.sessionCount ⟨name, declared, 0⟩
    sessionCount := b.sessionCount + 1
    tracked := b.tracked.set name b.sessionCount }

/-- The session a request names, tracked and no longer idle. -/
def find (declared : Option AuditCapability) (name : Str) (b : SessionBooks) : SessionBooks :=
  let found := match b.tracked.get name with
    | some _ => b
    | none => b.start declared name
  { found with idle := found.idle.pop name }

def oneMore (g : Nat) (b : SessionBooks) : SessionBooks :=
  { b with sessions := Function.update b.sessions g { b.sessions g with live := (b.sessions g).live + 1 } }

def join (declared : Option AuditCapability) (name : Str) (b : SessionBooks) : SessionBooks :=
  let found := b.find declared name
  match found.tracked.get name with
  | some g => found.oneMore g
  | none => found

def enter (request : Booked) (b : SessionBooks) : SessionBooks :=
  { b with requests := Function.update b.requests b.requestCount request, requestCount := b.requestCount + 1 }

/-- A request opens, under the session it names, if it names one. -/
def take (declared : Option AuditCapability) (named : Option Str) (b : SessionBooks) : SessionBooks :=
  let joined := named.elim b fun name => b.join declared name
  let audit := named.bind joined.tracked.get
  joined.enter ⟨audit, audit.elim declared fun g => (joined.sessions g).hostCapability, declared, false⟩

theorem Sound.fresh_session (h : b.Sound) : b.unreleased b.sessionCount = ∅ := by
  refine Finset.eq_empty_of_forall_notMem ?_
  intro c hc
  exact Nat.lt_irrefl _ (h.referred c _ (mem_unreleased.1 hc).2.1).2

theorem Sound.find_tracked (h : b.Sound) {name : Str} {g : Nat} (hget : b.tracked.get name = some g) :
    ({ b with idle := b.idle.pop name } : SessionBooks).Between g := by
  have hname : (b.sessions g).sessionId = name := (h.named name g hget).2
  refine ⟨h.referred, h.named, h.counted, h.held, h.declared, fun k hk _ => h.first k hk, ?_, ?_, ?_⟩
  · rw [hname]
    exact hget
  · simp [hname]
  · intro other k hother
    rw [hname] at hother
    rw [Dict.get_pop_ne _ hother]
    exact h.idle_iff other k

theorem start_sessions {declared : Option AuditCapability} {name : Str} {k : Nat} (hk : k < b.sessionCount) :
    (b.start declared name).sessions k = b.sessions k :=
  Function.update_of_ne (Nat.ne_of_lt hk) _ _

theorem Sound.find_new (h : b.Sound) {name : Str} (hget : b.tracked.get name = none)
    (declared : Option AuditCapability) :
    ({ b.start declared name with idle := b.idle.pop name } : SessionBooks).Between b.sessionCount := by
  have hself : (b.start declared name).sessions b.sessionCount = ⟨name, declared, 0⟩ := Function.update_self _ _ _
  constructor
  · intro c k hk
    obtain ⟨hc, hlt⟩ := h.referred c k hk
    exact ⟨hc, Nat.lt_succ_of_lt hlt⟩
  · intro other k hk
    rw [SessionBooks.start, Dict.get_set] at hk
    split at hk
    · next heq =>
      obtain rfl := Option.some.inj hk
      exact ⟨Nat.lt_succ_self _, (congrArg _ hself).trans (eq_of_beq heq).symm⟩
    · obtain ⟨hlt, hname⟩ := h.named other k hk
      exact ⟨Nat.lt_succ_of_lt hlt, (congrArg _ (start_sessions hlt)).trans hname⟩
  · intro other k hk
    rw [SessionBooks.start, Dict.get_set] at hk
    split at hk
    · obtain rfl := Option.some.inj hk
      have hempty : ({ b.start declared name with idle := b.idle.pop name } : SessionBooks).unreleased
          b.sessionCount = ∅ := h.fresh_session
      rw [hempty]
      exact congrArg _ hself
    · exact (congrArg _ (start_sessions (h.named other k hk).1)).trans (h.counted other k hk)
  · intro c k hk hout
    have hheld := h.held c k hk hout
    have hname : ((b.start declared name).sessions k).sessionId = (b.sessions k).sessionId :=
      congrArg _ (start_sessions (h.referred c k hk).2)
    refine (congrArg _ hname).trans ((Dict.get_set_ne _ ?_ _).trans hheld)
    intro heq
    rw [heq, hget] at hheld
    cases hheld
  · intro c k hk
    exact (h.declared c k hk).trans (congrArg _ (start_sessions (h.referred c k hk).2)).symm
  · intro k hk hnew
    have hlt : k < b.sessionCount := Nat.lt_of_le_of_ne (Nat.le_of_lt_succ hk) hnew
    obtain ⟨d, hd, hleast, hcapability⟩ := h.first k hlt
    exact ⟨d, hd, hleast, (congrArg _ (start_sessions hlt)).trans hcapability⟩
  · refine (congrArg _ (congrArg _ hself)).trans (Dict.get_set_self _ _ _)
  · refine (congrArg _ (congrArg _ hself)).trans (Dict.get_pop_self _ _)
  · intro other k hother
    have hne : other ≠ name := by
      rintro rfl
      exact hother (congrArg AuditSession.sessionId hself).symm
    have hidle : (b.idle.pop name).get other = b.idle.get other := Dict.get_pop_ne _ hne
    have htracked : (b.tracked.set name b.sessionCount).get other = b.tracked.get other := Dict.get_set_ne _ hne _
    simp only [SessionBooks.start, hidle, htracked]
    refine (h.idle_iff other k).trans (and_congr_right fun hk => ?_)
    rw [Function.update_of_ne (Nat.ne_of_lt (h.named other k hk).1)]

/-- The request that opened a session stays its first. -/
theorem FirstDeclared.enter {b b' : SessionBooks} {k : Nat} {request : Booked} (h : b.FirstDeclared k)
    (hreferred : ∀ c g, (b.requests c).audit = some g → c < b.requestCount ∧ g < b.sessionCount)
    (hsame : (b'.sessions k).hostCapability = (b.sessions k).hostCapability)
    (hrequests : b'.requests = Function.update b.requests b.requestCount request) : b'.FirstDeclared k := by
  obtain ⟨d, hd, hleast, hdeclared⟩ := h
  have hlt : d < b.requestCount := (hreferred d k hd).1
  have hold : ∀ e ≤ d, b'.requests e = b.requests e := by
    intro e he
    rw [hrequests, Function.update_of_ne (by omega)]
  refine ⟨d, by rw [hold d le_rfl, hd], ?_, by rw [hsame, hold d le_rfl, hdeclared]⟩
  intro e he
  rw [hold e (Nat.le_of_lt he)]
  exact hleast e he

/-- The session found has one request more. -/
theorem Between.enter {g : Nat} {declared : Option AuditCapability} (h : b.Between g)
    (hfirst : b.FirstDeclared g ∨
      (∀ c, (b.requests c).audit ≠ some g) ∧ (b.sessions g).hostCapability = declared) :
    ((b.oneMore g).enter ⟨some g, (b.sessions g).hostCapability, declared, false⟩).Sound := by
  have hsession : ∀ k, ((b.oneMore g).sessions k).sessionId = (b.sessions k).sessionId ∧
      ((b.oneMore g).sessions k).hostCapability = (b.sessions k).hostCapability := by
    intro k
    by_cases hk : k = g
    · subst hk
      simp [oneMore]
    · simp [oneMore, hk]
  have hunreleased : ∀ k,
      ((b.oneMore g).enter ⟨some g, (b.sessions g).hostCapability, declared, false⟩).unreleased k =
      if k = g then insert b.requestCount (b.unreleased g) else b.unreleased k := by
    intro k
    ext c
    by_cases hc : c = b.requestCount
    · subst hc
      by_cases hk : k = g
      · simp [SessionBooks.enter, oneMore, hk]
      · have hgk : ¬ g = k := fun heq => hk heq.symm
        simp [SessionBooks.enter, oneMore, hk, hgk]
    · have hcount : c < b.requestCount + 1 ↔ c < b.requestCount := by omega
      by_cases hk : k = g
      · simp [SessionBooks.enter, oneMore, hk, hc, hcount]
      · simp [SessionBooks.enter, oneMore, hk, hc, hcount]
  have hfresh : b.requestCount ∉ b.unreleased g := by simp
  constructor
  · intro c k hk
    by_cases hc : c = b.requestCount
    · subst hc
      have hgk : some g = some k := by simpa [SessionBooks.enter, oneMore] using hk
      obtain rfl := Option.some.inj hgk
      exact ⟨Nat.lt_succ_self _, (h.named _ _ h.tracked).1⟩
    · have hk' : (b.requests c).audit = some k := by simpa [SessionBooks.enter, oneMore, hc] using hk
      obtain ⟨hlt, hk⟩ := h.referred c k hk'
      exact ⟨Nat.lt_succ_of_lt hlt, hk⟩
  · intro name k hk
    obtain ⟨hlt, hname⟩ := h.named name k hk
    exact ⟨hlt, (hsession k).1.trans hname⟩
  · intro name k hk
    rw [hunreleased]
    have hcounted := h.counted name k hk
    by_cases hg : k = g
    · subst hg
      rw [if_pos rfl, Finset.card_insert_of_notMem hfresh]
      simp [SessionBooks.enter, oneMore, hcounted]
    · simp [SessionBooks.enter, oneMore, hg, hcounted]
  · intro c k hk hout
    refine Eq.trans (congrArg _ (hsession k).1) ?_
    by_cases hc : c = b.requestCount
    · subst hc
      have hgk : some g = some k := by simpa [SessionBooks.enter, oneMore] using hk
      obtain rfl := Option.some.inj hgk
      exact h.tracked
    · have hk' : (b.requests c).audit = some k := by simpa [SessionBooks.enter, oneMore, hc] using hk
      have hout' : (b.requests c).released = false := by simpa [SessionBooks.enter, oneMore, hc] using hout
      exact h.held c k hk' hout'
  · intro c k hk
    refine Eq.trans ?_ (hsession k).2.symm
    by_cases hc : c = b.requestCount
    · subst hc
      have hgk : some g = some k := by simpa [SessionBooks.enter, oneMore] using hk
      obtain rfl := Option.some.inj hgk
      simp [SessionBooks.enter, oneMore]
    · have hk' : (b.requests c).audit = some k := by simpa [SessionBooks.enter, oneMore, hc] using hk
      simpa [SessionBooks.enter, oneMore, hc] using h.declared c k hk'
  · intro k hk
    by_cases hold : b.FirstDeclared k
    · exact hold.enter h.referred (hsession k).2 rfl
    · obtain rfl : k = g := by
        by_contra hne
        exact hold (h.first k hk hne)
      obtain ⟨hnone, hdeclared⟩ := hfirst.resolve_left hold
      refine ⟨b.requestCount, by simp [SessionBooks.enter, oneMore], ?_, ?_⟩
      · intro e he
        simpa [SessionBooks.enter, oneMore, Nat.ne_of_lt he] using hnone e
      · refine (hsession k).2.trans ?_
        simpa [SessionBooks.enter, oneMore] using hdeclared
  · intro name k
    by_cases hname : name = (b.sessions g).sessionId
    · subst hname
      have hidle : ¬ b.idle.get (b.sessions g).sessionId = some k := by simp [h.notIdle]
      refine ⟨fun hk => absurd hk hidle, ?_⟩
      rintro ⟨hk, hzero⟩
      obtain rfl := Option.some.inj (hk.symm.trans h.tracked)
      have hcounted := h.counted _ k h.tracked
      simp [SessionBooks.enter, oneMore] at hzero
      omega
    · have hk : b.tracked.get name = some k → k ≠ g := by
        rintro hk rfl
        exact hname (h.named name k hk).2.symm
      refine (h.idle_iff name k hname).trans (and_congr_right fun hget => ?_)
      simp [SessionBooks.enter, oneMore, hk hget]

theorem Kept.take (h : b.Kept) (declared : Option AuditCapability) (named : Option Str) :
    (b.take declared named).Kept := by
  cases named with
  | none =>
    have hout : ∀ k, (b.take declared none).unreleased k = b.unreleased k := by
      intro k
      ext c
      by_cases hc : c = b.requestCount
      · subst hc
        simp [SessionBooks.take, SessionBooks.enter]
      · have hcount : c < b.requestCount + 1 ↔ c < b.requestCount := by omega
        simp [SessionBooks.take, SessionBooks.enter, hc, hcount]
    have hsame : ∀ c g, ((b.take declared none).requests c).audit = some g →
        c ≠ b.requestCount ∧ (b.requests c).audit = some g := by
      intro c g hg
      by_cases hc : c = b.requestCount
      · subst hc
        simp [SessionBooks.take, SessionBooks.enter] at hg
      · exact ⟨hc, by simpa [SessionBooks.take, SessionBooks.enter, hc] using hg⟩
    refine ⟨⟨?_, h.named, ?_, ?_, ?_, ?_, h.idle_iff⟩, h.few⟩
    · intro c g hg
      obtain ⟨hlt, hg⟩ := h.referred c g (hsame c g hg).2
      exact ⟨Nat.lt_succ_of_lt hlt, hg⟩
    · intro name g hg
      rw [hout]
      exact h.counted name g hg
    · intro c g hg hrel
      obtain ⟨hc, hg⟩ := hsame c g hg
      exact h.held c g hg (by simpa [SessionBooks.take, SessionBooks.enter, hc] using hrel)
    · intro c g hg
      obtain ⟨hc, hg⟩ := hsame c g hg
      simpa [SessionBooks.take, SessionBooks.enter, hc] using h.declared c g hg
    · intro k hk
      exact (h.first k hk).enter h.referred rfl rfl
  | some name =>
    have hfound : ∃ g, (b.find declared name).Between g ∧ (b.find declared name).tracked.get name = some g ∧
        ((b.find declared name).FirstDeclared g ∨ (∀ c, ((b.find declared name).requests c).audit ≠ some g) ∧
          ((b.find declared name).sessions g).hostCapability = declared) ∧
        (b.find declared name).idle.items.length ≤ MAX_IDLE := by
      unfold SessionBooks.find
      cases hget : b.tracked.get name with
      | some g =>
        exact ⟨g, h.toSound.find_tracked hget, hget, .inl (h.first g (h.named name g hget).1),
          Nat.le_trans (Dict.length_pop_le _ _) h.few⟩
      | none =>
        have hnew : ∀ c, (b.requests c).audit ≠ some b.sessionCount := fun c hc =>
          Nat.lt_irrefl _ (h.referred c _ hc).2
        exact ⟨b.sessionCount, h.toSound.find_new hget declared, Dict.get_set_self _ _ _,
          .inr ⟨hnew, congrArg _ (Function.update_self _ _ _)⟩, Nat.le_trans (Dict.length_pop_le _ _) h.few⟩
    obtain ⟨g, hbetween, hget, hfirst, hfew⟩ := hfound
    have hjoin : b.join declared name = (b.find declared name).oneMore g := by simp only [SessionBooks.join, hget]
    have htake : b.take declared (some name) = ((b.find declared name).oneMore g).enter
        ⟨some g, ((b.find declared name).sessions g).hostCapability, declared, false⟩ := by
      have hget' : ((b.find declared name).oneMore g).tracked.get name = some g := hget
      simp only [SessionBooks.take, Option.elim_some, hjoin, Option.bind_some, hget']
      simp [oneMore]
    rw [htake]
    exact ⟨hbetween.enter hfirst, hfew⟩

/-! ## Moves -/

inductive BookMove : SessionBooks → SessionBooks → Prop
  | release (b : SessionBooks) (final : Bool) (c : Nat) : BookMove b (b.release final c)
  | take (b : SessionBooks) (declared : Option AuditCapability) (named : Option Str) : BookMove b (b.take declared named)

abbrev Moves : SessionBooks → SessionBooks → Prop := Relation.ReflTransGen BookMove

theorem Kept.moves {b b' : SessionBooks} (h : b.Kept) (hmoves : Moves b b') : b'.Kept := by
  induction hmoves with
  | refl => exact h
  | tail _ hmove ih =>
    cases hmove with
    | release final c => exact ih.release final c
    | take declared named => exact ih.take declared named

end SessionBooks

/-! ## The seam moves its books -/

def ToolCall.booked (call : ToolCall) : Booked :=
  ⟨call.audit, call.hostCapability, call.declared, call.released⟩

namespace ToolSeam

variable {W : World} {s s' : ToolSeam W} {C : SeamConfig}

open SessionBooks (Moves BookMove)

def books (s : ToolSeam W) : SessionBooks where
  requests c := (s.calls c).booked
  requestCount := s.callCount
  sessions := s.sessions
  sessionCount := s.sessionCount
  tracked := s.tracked
  idle := s.idle

theorem books_eq (hcalls : ∀ d, (s'.calls d).booked = (s.calls d).booked) (hcount : s'.callCount = s.callCount)
    (hsessions : s'.sessions = s.sessions) (hsessionCount : s'.sessionCount = s.sessionCount)
    (htracked : s'.tracked = s.tracked) (hidle : s'.idle = s.idle) : s'.books = s.books := by
  simp only [books, SessionBooks.mk.injEq]
  exact ⟨funext hcalls, hcount, hsessions, hsessionCount, htracked, hidle⟩

theorem booked_updateCall (s : ToolSeam W) (c : Nat) (f : ToolCall → ToolCall)
    (hf : ∀ call, (f call).booked = call.booked) (d : Nat) :
    ((s.updateCall c f).calls d).booked = (s.calls d).booked := by
  by_cases hd : d = c
  · subst hd
    simp [updateCall, hf]
  · simp [updateCall, hd]

theorem books_updateCall (s : ToolSeam W) (c : Nat) (f : ToolCall → ToolCall)
    (hf : ∀ call, (f call).booked = call.booked) : (s.updateCall c f).books = s.books :=
  books_eq (booked_updateCall s c f hf) rfl rfl rfl rfl rfl

theorem books_evictIdle (turns : Nat) : (s.evictIdle turns).books = s.books.evictIdle turns := by
  induction turns generalizing s with
  | zero => rfl
  | succ turns ih =>
    simp only [ToolSeam.evictIdle, SessionBooks.evictIdle]
    have hidle : s.books.idle = s.idle := rfl
    rw [hidle]
    split
    · rfl
    · cases hitems : s.idle.items with
      | nil => rfl
      | cons e rest => exact ih

theorem books_keepIdle (g : Nat) : (s.keepIdle g).books = s.books.keepIdle g := books_evictIdle _

theorem books_lessOne (g c : Nat) :
    ((s.updateCall c .release).updateSession g fun a => { a with live := a.live - 1 }).books = s.books.lessOne g c := by
  have hrequests : ∀ d, ((s.updateCall c .release).calls d).booked = (s.books.lessOne g c).requests d := by
    intro d
    by_cases hd : d = c
    · subst hd
      simp [books, updateCall, SessionBooks.lessOne, ToolCall.booked, ToolCall.release]
    · simp [books, updateCall, SessionBooks.lessOne, hd]
  exact congrArg (fun r => { s.books.lessOne g c with requests := r }) (funext hrequests)

theorem books_release (final : Bool) (c : Nat) : (s.release final c).books = s.books.release final c := by
  have haudit : (s.books.requests c).audit = (s.calls c).audit := rfl
  have hreleased : (s.books.requests c).released = (s.calls c).released := rfl
  simp only [ToolSeam.release, SessionBooks.release, haudit, hreleased]
  cases (s.calls c).audit with
  | none => rfl
  | some g =>
    dsimp only
    split
    · rfl
    · rw [← books_lessOne]
      generalize (s.updateCall c .release).updateSession g (fun a => { a with live := a.live - 1 }) = less
      have hlive : (less.books.sessions g).live = (less.sessions g).live := rfl
      rw [hlive]
      split
      · rfl
      · split
        · rfl
        · exact books_keepIdle g

theorem moves_of_eq (h : s'.books = s.books) : Moves s.books s'.books := h ▸ .refl

theorem moves_release (final : Bool) (c : Nat) : Moves s.books (s.release final c).books :=
  books_release (s := s) final c ▸ .single (.release s.books final c)

theorem moves_endCall (c : Nat) : Moves s.books (s.endCall c).books := by
  refine .trans (moves_of_eq ?_) (moves_release true c)
  exact books_eq (booked_updateCall s c .drop fun _ => rfl) rfl rfl rfl rfl rfl

theorem moves_evictWaiting (turns : Nat) : Moves s.books (s.evictWaiting turns).books := by
  induction turns generalizing s with
  | zero => exact .refl
  | succ turns ih =>
    simp only [evictWaiting]
    split
    · exact .refl
    · split
      · exact .trans (moves_endCall _) ih
      · exact .refl

theorem moves_keepWaiting (frame : Frame) (c : Nat) : Moves s.books (s.keepWaiting frame c).books := by
  refine .trans (moves_of_eq ?_) (moves_evictWaiting _)
  exact books_eq (booked_updateCall s c (·.park frame) fun _ => rfl) rfl rfl rfl rfl rfl

theorem books_concludeWaiting (outcomes : List Emission) (c : Nat) :
    (s.concludeWaiting outcomes c).books = s.books :=
  books_eq (booked_updateCall s c (·.conclude outcomes) fun _ => rfl) rfl rfl rfl rfl rfl

theorem books_scheduleRound (s : ToolSeam W) (c : Nat) : (s.scheduleRound c).books = s.books :=
  books_updateCall s c .schedule fun _ => rfl

theorem moves_finalFrame (frame : Frame) (c : Nat) : Moves s.books (s.finalFrame frame c).1.books := by
  unfold finalFrame
  split
  · exact .refl
  · have hkeep : ∀ events, ((s.settle (unanswered (s.calls c).bufferedAwaiting.values)).updateCall c
        (·.keepOnly events)).books = s.books := fun events => books_updateCall _ c (·.keepOnly events) fun _ => rfl
    dsimp only
    split
    · split
      · exact moves_of_eq ((books_concludeWaiting _ c).trans (hkeep _))
      · dsimp only
        rw [books_scheduleRound]
        exact .trans (moves_of_eq (hkeep _)) (moves_keepWaiting _ c)
    · exact moves_of_eq ((books_concludeWaiting _ c).trans (hkeep _))
    · exact .refl

theorem moves_finish (frame : Frame) (c : Nat) : Moves s.books (s.finish frame c).1.books := by
  refine .trans (moves_release (!!concludes frame) c) ?_
  unfold finish
  dsimp only
  split
  · exact moves_of_eq (books_updateCall _ c .close fun _ => rfl)
  · split
    · next r _ =>
      exact moves_keepWaiting (s := (s.release (!!concludes frame) c).settle (unanswered r.awaiting.values)) frame c
    · exact moves_finalFrame _ c

theorem moves_outbound (frame : Frame) : Moves s.books (s.outbound C frame).1.books := by
  have hanswer : ∀ id, Moves s.books (outbound.answer frame s id).1.books := by
    intro id
    unfold outbound.answer
    split
    · exact .refl
    · split
      · refine .trans (moves_of_eq ?_) (moves_finish _ _)
        exact books_eq (booked_updateCall s _ .finish fun _ => rfl) rfl rfl rfl rfl rfl
      · exact .refl
  unfold outbound
  split
  · split
    · exact .refl
    · exact hanswer _
  · exact hanswer _
  · exact .refl

theorem books_findSession (declared : Option AuditCapability) (name : Str) :
    (s.findSession declared name).books = s.books.find declared name := by
  have hget : s.books.tracked.get name = s.tracked.get name := rfl
  unfold findSession SessionBooks.find
  rw [hget]
  cases s.tracked.get name <;> rfl

theorem books_joinSession (declared : Option AuditCapability) (name : Str) :
    (s.joinSession declared name).books = s.books.join declared name := by
  have hget : (s.findSession declared name).tracked.get name =
      (s.findSession declared name).books.tracked.get name := rfl
  unfold joinSession SessionBooks.join
  rw [← books_findSession]
  dsimp only
  rw [hget]
  cases (s.findSession declared name).books.tracked.get name <;> rfl

theorem books_enrol (call : ToolCall) : (s.enrol call).books = s.books.enter call.booked := by
  have hrequests : ∀ d, ((s.enrol call).calls d).booked = (s.books.enter call.booked).requests d := by
    intro d
    by_cases hd : d = s.callCount
    · subst hd
      simp [enrol, SessionBooks.enter, books]
    · simp [enrol, SessionBooks.enter, books, hd]
  exact congrArg (fun r => { s.books.enter call.booked with requests := r }) (funext hrequests)

theorem books_openCall (id : RequestId) (params : Members) (ownSessionId : Str) :
    (s.openCall C id params ownSessionId).books =
      s.books.take (s.declaredBy C params) (sessionNamed W params) := by
  have hjoined : ((sessionNamed W params).elim s fun name => s.joinSession (s.declaredBy C params) name).books =
      (sessionNamed W params).elim s.books fun name => s.books.join (s.declaredBy C params) name := by
    cases sessionNamed W params with
    | none => rfl
    | some name => exact books_joinSession _ _
  unfold SessionBooks.take
  rw [← hjoined]
  exact books_enrol _

/-! ## Runs -/

theorem moves_deliverFinal (frame : Frame) (c : Nat) : Moves s.books (s.deliverFinal frame c).books := by
  have hmoves := moves_finalFrame (s := s) frame c
  unfold deliverFinal
  split
  · next hfinal =>
    rw [hfinal] at hmoves
    exact hmoves
  · next hfinal =>
    rw [hfinal] at hmoves
    exact hmoves

theorem moves_retry (id : RequestId) (params : Members) (token : Str) :
    Moves s.books (s.retry id params token).books := by
  unfold retry
  split
  · exact .refl
  · next c r _ =>
    have haccepted : ({ s with
        rounds := s.rounds.pop token
        resumed := s.resumed ++ [(token, s.inbox.length)] }.acceptRetry id params c r).books = s.books :=
      books_updateCall _ c (·.resumeOn id) fun _ => rfl
    dsimp only
    split
    · exact .trans (moves_of_eq haccepted) (moves_deliverFinal _ c)
    · exact moves_of_eq haccepted

theorem moves_takeCall (id : RequestId) (method : Str) (params : Option Members) (ownSessionId : Str) :
    Moves s.books (s.takeCall C id method params ownSessionId).1.books := by
  unfold takeCall
  split
  · exact moves_retry id _ _
  · refine .single ?_
    dsimp only
    rw [books_openCall]
    exact .take _ _ _

theorem moves_cancel (params : Option Members) : Moves s.books (s.cancel params).1.books := by
  unfold cancel
  dsimp only
  split
  · exact .refl
  · next c _ =>
    have hdropped : ((s.endCall c).updateCall c (·.cancel s.out.length)).books = (s.endCall c).books :=
      books_updateCall _ c (·.cancel s.out.length) fun _ => rfl
    split
    · exact .trans (moves_endCall c) (moves_of_eq hdropped)
    · exact .trans (moves_endCall c) (moves_of_eq hdropped)

theorem moves_inbound (frame : Frame) (ownSessionId : Str) : Moves s.books (s.inbound C frame ownSessionId).1.books := by
  have hanswer : ∀ id, Moves s.books (s.answerAttempt id frame).1.books := by
    intro id
    unfold answerAttempt
    split
    · split <;> exact .refl
    · exact .refl
  cases frame with
  | request id method params =>
    simp only [inbound]
    split
    · exact .refl
    · split
      · exact moves_takeCall id method params ownSessionId
      · exact .refl
  | notification method params =>
    simp only [inbound]
    split
    · exact moves_cancel params
    · exact .refl
  | response id result => exact hanswer id
  | error id code message =>
    cases id with
    | none => exact .refl
    | some id => exact hanswer id

theorem books_sendAttempt (event : Event) (c : Nat) : (s.sendAttempt event c).books = s.books := by
  unfold sendAttempt
  dsimp only
  split
  · rfl
  · split
    · exact books_updateCall _ c (·.ask event _ _) fun _ => rfl
    · rfl

theorem booked_answered (r : AttemptResponse W) (id : Str) (call : ToolCall) :
    (call.answered r id).booked = call.booked := by
  unfold ToolCall.answered
  split
  · split <;> rfl
  · rfl

theorem books_resume (a : Nat) : (s.resume a).books = s.books :=
  books_updateCall _ _ (·.answered _ _) fun _ => booked_answered _ _ _

theorem books_sendOutcome (event : Event) (c : Nat) : (s.sendOutcome event c).books = s.books := by
  have hleft := books_updateCall s c (·.concluded (idText W event)) fun _ => rfl
  unfold sendOutcome
  dsimp only
  split
  · exact hleft
  · split
    · exact (books_updateCall _ c (·.emit event none) fun _ => rfl).trans hleft
    · exact hleft

theorem books_endRound (token : Str) (c : Nat) : (s.endRound token c).books = s.books := by
  have hbegun := books_updateCall s c .beginRound fun _ => rfl
  unfold endRound
  dsimp only
  split
  · exact hbegun
  · split
    · exact hbegun
    · exact (books_updateCall _ c (·.sendRound token) fun _ => rfl).trans hbegun

theorem moves_step {a : Act} (h : s.step C a = some s') (hopen : a.stays = true) : Moves s.books s'.books := by
  cases a with
  | inbound frame ownSessionId =>
    obtain rfl := Option.some.inj h
    exact moves_inbound frame ownSessionId
  | negotiate c offered =>
    obtain ⟨_, h⟩ := Option.ite_none_right_eq_some.1 h
    obtain ⟨_, h⟩ := Option.ite_none_right_eq_some.1 h
    obtain rfl := Option.some.inj h
    exact moves_of_eq (books_updateCall s c (·.negotiate offered) fun _ => rfl)
  | attempt c event =>
    obtain ⟨_, h⟩ := Option.ite_none_right_eq_some.1 h
    obtain rfl := Option.some.inj h
    exact moves_of_eq (books_sendAttempt event c)
  | resume a =>
    obtain ⟨_, h⟩ := Option.ite_none_right_eq_some.1 h
    obtain rfl := Option.some.inj h
    exact moves_of_eq (books_resume a)
  | sendFails a =>
    obtain ⟨_, h⟩ := Option.ite_none_right_eq_some.1 h
    obtain ⟨id, _, rfl⟩ := Option.map_eq_some_iff.1 h
    exact .refl
  | outcome c event =>
    obtain ⟨_, h⟩ := Option.ite_none_right_eq_some.1 h
    obtain rfl := Option.some.inj h
    exact moves_of_eq (books_sendOutcome event c)
  | endRound c secret =>
    obtain ⟨_, h⟩ := Option.ite_none_right_eq_some.1 h
    obtain rfl := Option.some.inj h
    exact moves_of_eq (books_endRound _ c)
  | write frame stale =>
    simp only [step] at h
    split at h
    · obtain rfl := Option.some.inj h
      exact .refl
    · obtain ⟨_, h⟩ := Option.ite_none_right_eq_some.1 h
      obtain rfl := Option.some.inj h
      exact .refl
  | withdraw place =>
    simp only [step] at h
    split at h
    · cases h
    · obtain rfl := Option.some.inj h
      exact .refl
  | pump =>
    simp only [step, pump] at h
    split at h
    · cases h
    · next q rest _ =>
      split at h
      · obtain rfl := Option.some.inj h
        exact moves_outbound (s := { s with queue := rest }) q.frame
      · obtain rfl := Option.some.inj h
        exact .refl
  | forget id =>
    obtain rfl := Option.some.inj h
    exact .refl
  | close => cases hopen

theorem moves_run (h : Run C (fun _ a => a.stays) s) : Moves (start : ToolSeam W).books s.books := by
  induction h with
  | refl => exact .refl
  | tail _ hstep ih =>
    obtain ⟨a, hopen, hstep⟩ := hstep
    exact ih.trans (moves_step hstep hopen)

theorem kept_start : (start : ToolSeam W).books.Kept :=
  ⟨⟨nofun, nofun, nofun, nofun, nofun, nofun, fun _ _ => ⟨nofun, nofun⟩⟩, Nat.zero_le _⟩

/-- The requests of a session that are not released. -/
def unreleased (s : ToolSeam W) (g : Nat) : Finset Nat :=
  {c ∈ Finset.range s.callCount | (s.calls c).audit = some g ∧ (s.calls c).released = false}

/-- A request of this session is not released. -/
def LiveUnder (s : ToolSeam W) (c g : Nat) : Prop := (s.calls c).audit = some g ∧ (s.calls c).released = false

/-- What holds of the audit sessions of a connection. -/
structure OneNumbering (s : ToolSeam W) : Prop where
  live : ∀ name g, s.tracked.get name = some g → (s.sessions g).live = (s.unreleased g).card
  /-- A live request has the object the table has. -/
  held : ∀ c g, s.LiveUnder c g → s.tracked.get (s.sessions g).sessionId = some g
  /-- Live requests of one name have one session, one declaration and, once negotiated, one numbering. -/
  shared : ∀ c d g k, s.LiveUnder c g → s.LiveUnder d k → (s.sessions g).sessionId = (s.sessions k).sessionId →
    g = k ∧ (s.calls c).hostCapability = (s.calls d).hostCapability ∧
      ((s.calls c).negotiated = true → (s.calls d).negotiated = true → s.numberedBy c = s.numberedBy d)
  /-- The declaration is that of the session's first request. -/
  first : ∀ c g, (s.calls c).audit = some g → ∃ d, (s.calls d).audit = some g ∧
    (∀ e < d, (s.calls e).audit ≠ some g) ∧ (s.calls c).hostCapability = (s.calls d).declared
  idle : ∀ name g, s.idle.get name = some g ↔ s.tracked.get name = some g ∧ (s.sessions g).live = 0
  few : s.idle.items.length ≤ MAX_IDLE

/-- **One numbering for each audit session**, after every act on a connection that is not closed. The loop that evicts
idle sessions has ended (`few`), and no session it evicted had a live request (`held`). -/
theorem one_numbering (h : Run C (fun _ a => a.stays) s) : s.OneNumbering := by
  have hkept : s.books.Kept := kept_start.moves (moves_run h)
  have hheld : ∀ c g, s.LiveUnder c g → s.tracked.get (s.sessions g).sessionId = some g :=
    fun c g hc => hkept.held c g hc.1 hc.2
  refine ⟨hkept.counted, hheld, ?_, ?_, hkept.idle_iff, hkept.few⟩
  · intro c d g k hc hd hname
    have hsame := hheld c g hc
    rw [hname, hheld d k hd] at hsame
    obtain rfl := Option.some.inj hsame
    refine ⟨rfl, (hkept.declared c k hc.1).trans (hkept.declared d k hd.1).symm, ?_⟩
    intro hcnegotiated hdnegotiated
    simp only [numberedBy, hc.1, hd.1, hcnegotiated, hdnegotiated]
  · intro c g hc
    obtain ⟨d, hd, hleast, hdeclared⟩ := hkept.first g (hkept.referred c g hc).2
    exact ⟨d, hd, hleast, (hkept.declared c g hc).trans hdeclared⟩

/-- Two requests of one session are open, and it counts both. -/
theorem one_numbering_two : ∃ s : ToolSeam reference,
    start.steps sampleSeam (fun _ a => a.stays) [sampleOpening 1, sampleOpening 2] = some s ∧
      (s.sessions 0).live = 2 ∧ s.OneNumbering := by
  have hlive : ((start : ToolSeam reference).steps sampleSeam (fun _ a => a.stays)
      [sampleOpening 1, sampleOpening 2]).map (fun s => (s.sessions 0).live) = some 2 := by decide
  obtain ⟨s, hs, hlive⟩ := Option.map_eq_some_iff.1 hlive
  exact ⟨s, hs, hlive, one_numbering (run_of_steps hs)⟩

end ToolSeam

end AuditableMcp
