import AuditableMcp.Verify
import AuditableMcp.Lib.Spans
import Mathlib.Data.List.DropRight
/-!
# Signer numbers accounted for

The four steps of §11.4 over explicit sets of numbers (`accounting`), and that `unaccounted_signer_seq`, which
edits a list of runs in place and never builds the sets, reports the same (`unaccounted_iff`). A session, an id
or a reason without a hash makes it raise (`Accountable`).
-/
namespace AuditableMcp

open JsonValue Spans

/-! ## The four steps -/

def Numbering.key (n : Numbering) : Str × Str := (n.keyId, n.sessionId)

/-- Each item of a list, behind the items before it. -/
def behind {α : Type} (l : List α) : List (List α × α) := l.inits.zip l

/-- An attempt of the operation of `e`: of one session and id with it. -/
def isAttemptOf (e : Event) : Json → Bool
  | .obj a => hasText a OUTCOME Outcome.attempted.text &&
      (pySame (getNull e SESSION_ID) (getNull a SESSION_ID) && pySame (getNull e ID) (getNull a ID))
  | _ => false

/-- An aborted outcome whose reason is that the host did not accept. -/
def isHostRefusal (e : Event) : Bool :=
  hasText e OUTCOME Outcome.aborted.text && refusalReasons.any (fun r => getNull e REASON = .str r)

/-- The number of a refusal no earlier attempt precedes, under `key`. -/
def refusalUnder (key : Str × Str) (p : List Json × Json) : Option Nat :=
  match p.2 with
  | .obj e => (numberedAs e).bind fun n =>
      if n.key = key ∧ isHostRefusal e = true ∧ p.1.any (isAttemptOf e) = false then some n.signerSeq else none
  | _ => none

/-- The keys and sessions numbered under, in order of first appearance. -/
def keysOf (events : List Json) : List (Str × Str) := ((events.filterMap numberOf).map Numbering.key).eraseDups

/-- The values sealed under a key and session, in order. -/
def numbersUnder (key : Str × Str) (events : List Json) : List Nat :=
  ((events.filterMap numberOf).filter (·.key = key)).map (·.signerSeq)

def sealedUnder (key : Str × Str) (events : List Json) : Finset Nat := (numbersUnder key events).toFinset

/-- The refusals under it, ascending. -/
def refusalsUnder (key : Str × Str) (events : List Json) : List Nat :=
  ((behind events).filterMap (refusalUnder key)).insertionSort (· ≤ ·)

/-- The missing values no refusal accounts for. -/
def leftUnder (key : Str × Str) (events : List Json) : Finset Nat :=
  (refusalsUnder key events).foldl cover (gaps (sealedUnder key events))

/-- §11.4's accounting, over sets. -/
def accounting (events : List Json) : List UnaccountedSignerSeq :=
  (keysOf events).flatMap fun key => (spansOf (leftUnder key events)).map fun run => ⟨key.1, key.2, run.1, run.2⟩

/-- What the procedure hashes of an event has a hash. -/
def Accountable : Json → Prop
  | .obj e => (getNull e SESSION_ID).hashable = true ∧ (getNull e ID).hashable = true ∧
      ((numberedAs e).isSome = true → hasText e OUTCOME Outcome.aborted.text = true →
        (getNull e REASON).hashable = true)
  | _ => True

/-! ## Lists -/

theorem behind_concat {α : Type} (l : List α) (v : α) : behind (l ++ [v]) = behind l ++ [(l, v)] := by
  unfold behind
  induction l with
  | nil => rfl
  | cons a l ih =>
    have hmap : ∀ m : List α, (List.map (a :: ·) m.inits).zip m = (m.inits.zip m).map fun p => (a :: p.1, p.2) := by
      intro m
      rw [List.zip_map_left]
      rfl
    simp only [List.cons_append, List.inits_cons, List.zip_cons_cons, hmap, ih, List.map_append, List.map_cons,
      List.map_nil]

theorem eraseDups_concat {α : Type} [BEq α] [LawfulBEq α] [DecidableEq α] (l : List α) (k : α) :
    (l ++ [k]).eraseDups = if k ∈ l then l.eraseDups else l.eraseDups ++ [k] := by
  have hone : [k].eraseDups = [k] := List.eraseDups_cons
  rw [List.eraseDups_append]
  by_cases h : k ∈ l <;> simp [List.removeAll, h, hone]

theorem nodup_eraseDups {α : Type} [BEq α] [LawfulBEq α] [DecidableEq α] (l : List α) : l.eraseDups.Nodup := by
  induction l using List.reverseRecOn with
  | nil => exact .nil
  | append_singleton l k ih =>
    rw [eraseDups_concat]
    split
    · exact ih
    · next h =>
      refine List.nodup_append.2 ⟨ih, List.nodup_singleton _, ?_⟩
      rintro a ha b hb rfl
      obtain rfl := List.mem_singleton.1 hb
      exact h (List.mem_eraseDups.1 ha)

/-! ## Calls that may raise -/

section Checked

variable {α β : Type}

theorem mapM_ok_iff {f : α → Checked β} {l : List α} :
    (∃ bs, l.mapM f = .ok bs) ↔ ∀ a ∈ l, ∃ b, f a = .ok b := by
  induction l with
  | nil => exact ⟨fun _ _ h => absurd h List.not_mem_nil, fun _ => ⟨[], rfl⟩⟩
  | cons a l ih =>
    rw [List.forall_mem_cons, ← ih, List.mapM_cons]
    constructor
    · rintro ⟨bs, h⟩
      obtain ⟨b, hb, h⟩ := bind_eq_ok.1 h
      obtain ⟨bs', hbs, _⟩ := bind_eq_ok.1 h
      exact ⟨⟨b, hb⟩, bs', hbs⟩
    · rintro ⟨⟨b, hb⟩, bs, hbs⟩
      exact ⟨b :: bs, by rw [hb, hbs]; rfl⟩

theorem mapM_eq_ok_iff {f : α → Checked β} {l : List α} {bs : List β} :
    l.mapM f = .ok bs ↔ List.Forall₂ (fun a b => f a = .ok b) l bs := by
  induction l generalizing bs with
  | nil =>
    rw [List.mapM_nil, pure_eq_ok, List.forall₂_nil_left_iff]
    exact eq_comm
  | cons a l ih =>
    rw [List.mapM_cons, bind_eq_ok]
    constructor
    · rintro ⟨b, hb, h⟩
      obtain ⟨bs', hbs, h⟩ := bind_eq_ok.1 h
      obtain rfl := pure_eq_ok.1 h
      exact .cons hb (ih.1 hbs)
    · intro h
      cases h with
      | cons hb hbs => exact ⟨_, hb, bind_eq_ok.2 ⟨_, ih.2 hbs, rfl⟩⟩

theorem mem_mapM_iff {f : α → Checked β} {l : List α} {bs : List β} (h : l.mapM f = .ok bs) {b : β} :
    b ∈ bs ↔ ∃ a ∈ l, f a = .ok b := by
  have hall := mapM_eq_ok_iff.1 h
  clear h
  induction hall with
  | nil => simp
  | @cons a c l bs hac _ ih => simp [hac, ih, eq_comm]

theorem forM_eq_ok_iff {f : α → Checked Unit} {l : List α} : l.forM f = .ok () ↔ ∀ a ∈ l, f a = .ok () := by
  induction l with
  | nil => exact ⟨fun _ _ h => absurd h List.not_mem_nil, fun _ => rfl⟩
  | cons a l ih =>
    rw [List.forall_mem_cons, ← ih]
    exact bind_eq_ok.trans ⟨fun ⟨_, ha, hl⟩ => ⟨ha, hl⟩, fun ⟨ha, hl⟩ => ⟨(), ha, hl⟩⟩

theorem mapM_eq_map {f : α → Checked β} {g : α → β} {l : List α} (h : ∀ a ∈ l, f a = .ok (g a)) :
    l.mapM f = .ok (l.map g) := by
  induction l with
  | nil => rfl
  | cons a l ih =>
    rw [List.mapM_cons, h a (List.mem_cons_self ..), ih fun b hb => h b (List.mem_cons_of_mem _ hb)]
    rfl

/-- A fold whose steps raise by their item alone. -/
theorem foldlM_ok_iff {f : β → α → Checked β} {H : α → Prop} (hf : ∀ b a, (∃ b', f b a = .ok b') ↔ H a) {l : List α} :
    ∀ b, (∃ b', l.foldlM f b = .ok b') ↔ ∀ a ∈ l, H a := by
  induction l with
  | nil => exact fun b => ⟨fun _ _ h => absurd h List.not_mem_nil, fun _ => ⟨b, rfl⟩⟩
  | cons a l ih =>
    intro b
    rw [List.forall_mem_cons, List.foldlM_cons]
    constructor
    · rintro ⟨b', h⟩
      obtain ⟨c, hc, h⟩ := bind_eq_ok.1 h
      exact ⟨(hf b a).1 ⟨c, hc⟩, (ih c).1 ⟨b', h⟩⟩
    · rintro ⟨ha, hl⟩
      obtain ⟨c, hc⟩ := (hf b a).2 ha
      obtain ⟨b', h⟩ := (ih c).2 hl
      exact ⟨b', by rw [hc]; exact h⟩

theorem filterM_eq_filter {f : α → Checked Bool} {g : α → Bool} {l : List α} (h : ∀ a ∈ l, f a = .ok (g a)) :
    l.filterM f = .ok (l.filter g) := by
  have haux : ∀ acc, l.filterAuxM f acc = .ok ((l.filter g).reverse ++ acc) := by
    induction l with
    | nil => exact fun acc => rfl
    | cons a l ih =>
      intro acc
      have hrest := ih (fun b hb => h b (List.mem_cons_of_mem _ hb)) (cond (g a) (a :: acc) acc)
      rw [List.filterAuxM, h a (List.mem_cons_self ..)]
      cases hg : g a <;> simpa [hg, bind, Except.bind] using hrest
  rw [List.filterM, haux []]
  simp [bind, Except.bind, pure, Except.pure]

theorem filterM_ok_iff {f : α → Checked Bool} {l : List α} :
    (∃ as, l.filterM f = .ok as) ↔ ∀ a ∈ l, ∃ b, f a = .ok b := by
  have haux : ∀ acc, (∃ as, l.filterAuxM f acc = .ok as) ↔ ∀ a ∈ l, ∃ b, f a = .ok b := by
    induction l with
    | nil => exact fun acc => ⟨fun _ _ h => absurd h List.not_mem_nil, fun _ => ⟨acc, rfl⟩⟩
    | cons a l ih =>
      intro acc
      rw [List.forall_mem_cons, List.filterAuxM]
      constructor
      · rintro ⟨as, h⟩
        obtain ⟨b, hb, h⟩ := bind_eq_ok.1 h
        exact ⟨⟨b, hb⟩, (ih _).1 ⟨as, h⟩⟩
      · rintro ⟨⟨b, hb⟩, hl⟩
        obtain ⟨as, has⟩ := (ih (cond b (a :: acc) acc)).2 hl
        exact ⟨as, by rw [hb]; exact has⟩
  constructor
  · rintro ⟨as, h⟩
    obtain ⟨bs, hbs, _⟩ := bind_eq_ok.1 h
    exact (haux []).1 ⟨bs, hbs⟩
  · intro h
    obtain ⟨bs, hbs⟩ := (haux []).2 h
    exact ⟨bs.reverse, by rw [List.filterM, hbs]; rfl⟩

end Checked

/-! ## The first loop -/

/-- An event as a member of its group. -/
def memberUnder (key : Str × Str) (p : List Json × Json) : Option GroupMember :=
  match p.2 with
  | .obj e => (numberedAs e).bind fun n =>
      if n.key = key then some ⟨n.signerSeq, e, p.1.any (isAttemptOf e)⟩ else none
  | _ => none

def membersUnder (key : Str × Str) (events : List Json) : List GroupMember :=
  (behind events).filterMap (memberUnder key)

/-- The groups of the first loop. -/
def groupsOf (events : List Json) : Groups := (keysOf events).map fun key => (key, membersUnder key events)

/-- The key of an attempt. -/
def attemptKey : Json → Option CallKey
  | .obj a => if hasText a OUTCOME Outcome.attempted.text then
      some (.inScope (getNull a SESSION_ID) (getNull a ID)) else none
  | _ => none

def attemptsOf (events : List Json) : List CallKey := (events.filterMap attemptKey).reverse

theorem Groups.add_map {keys : List (Str × Str)} (h : keys.Nodup) (f : Str × Str → List GroupMember)
    (key : Str × Str) (m : GroupMember) : Groups.add key m (keys.map fun k => (k, f k)) =
      if key ∈ keys then keys.map fun k => (k, if k = key then f k ++ [m] else f k)
      else (keys.map fun k => (k, f k)) ++ [(key, [m])] := by
  induction keys with
  | nil => rfl
  | cons k keys ih =>
    rw [List.nodup_cons] at h
    rw [List.map_cons, Groups.add]
    by_cases hk : k = key
    · subst hk
      have hrest : ∀ j ∈ keys, (if j = k then f j ++ [m] else f j) = f j := by
        intro j hj
        rw [if_neg]
        rintro rfl
        exact h.1 hj
      simp only [↓reduceIte, List.mem_cons, true_or, List.map_cons]
      congr 1
      exact List.map_congr_left fun j hj => by rw [hrest j hj]
    · rw [if_neg hk, ih h.2]
      have hne : ¬ key = k := fun he => hk he.symm
      by_cases hin : key ∈ keys
      · simp [hin, hk]
      · simp [hin, hne]

theorem correlated_eq (events : List Json) (e : Event) :
    (attemptsOf events).any (CallKey.inScope (getNull e SESSION_ID) (getNull e ID)).eq = events.any (isAttemptOf e) := by
  rw [attemptsOf, List.any_reverse]
  induction events with
  | nil => rfl
  | cons v events ih =>
    rw [List.any_cons, ← ih]
    cases v with
    | obj a =>
      by_cases h : hasText a OUTCOME Outcome.attempted.text = true
      · simp [attemptKey, isAttemptOf, h, CallKey.eq]
      · simp [attemptKey, isAttemptOf, h]
    | _ => rfl

theorem keysOf_concat (events : List Json) (v : Json) : keysOf (events ++ [v]) =
    match numberOf v with
    | none => keysOf events
    | some n => if n.key ∈ keysOf events then keysOf events else keysOf events ++ [n.key] := by
  unfold keysOf
  rw [List.filterMap_append, List.map_append]
  cases h : numberOf v with
  | none => simp [h]
  | some n => simp only [List.filterMap_cons, List.filterMap_nil, h, List.map_cons, List.map_nil, eraseDups_concat,
      List.mem_eraseDups]

theorem keysOf_nodup (events : List Json) : (keysOf events).Nodup := nodup_eraseDups _

theorem mem_keysOf {key : Str × Str} {events : List Json} :
    key ∈ keysOf events ↔ ∃ v ∈ events, ∃ n, numberOf v = some n ∧ n.key = key := by
  simp only [keysOf, List.mem_eraseDups, List.mem_map, List.mem_filterMap]
  grind

theorem membersUnder_concat (key : Str × Str) (events : List Json) (v : Json) :
    membersUnder key (events ++ [v]) = membersUnder key events ++ (memberUnder key (events, v)).toList := by
  rw [membersUnder, behind_concat, List.filterMap_append]
  cases h : memberUnder key (events, v) <;> simp [membersUnder, h]

theorem attemptsOf_concat (events : List Json) (v : Json) :
    attemptsOf (events ++ [v]) = (attemptKey v).toList ++ attemptsOf events := by
  rw [attemptsOf, List.filterMap_append, List.reverse_append]
  cases h : attemptKey v <;> simp [attemptsOf, h]

/-- A member is its numbered event, behind those before it. -/
theorem memberUnder_eq_some {key : Str × Str} {before : List Json} {v : Json} {m : GroupMember} :
    memberUnder key (before, v) = some m ↔ ∃ e n, v = .obj e ∧ numberedAs e = some n ∧ n.key = key ∧
      m = ⟨n.signerSeq, e, before.any (isAttemptOf e)⟩ := by
  cases v with
  | obj e =>
    simp only [memberUnder, Option.bind_eq_some_iff, Option.ite_none_right_eq_some, Option.some.injEq,
      Json.obj.injEq]
    grind
  | _ => simp [memberUnder]

theorem mem_of_mem_behind {α : Type} {l : List α} {p : List α × α} (h : p ∈ behind l) : p.2 ∈ l :=
  (List.of_mem_zip h).2

theorem mem_numbersUnder {key : Str × Str} {events : List Json} {x : Nat} : x ∈ numbersUnder key events ↔
    ∃ e n, .obj e ∈ events ∧ numberedAs e = some n ∧ n.key = key ∧ n.signerSeq = x := by
  simp only [numbersUnder, List.mem_map, List.mem_filter, List.mem_filterMap, decide_eq_true_eq]
  constructor
  · rintro ⟨n, ⟨⟨v, hv, hn⟩, hkey⟩, rfl⟩
    cases v with
    | obj e => exact ⟨e, n, hv, hn, hkey, rfl⟩
    | _ => cases hn
  · rintro ⟨e, n, he, hn, hkey, rfl⟩
    exact ⟨n, ⟨⟨_, he, hn⟩, hkey⟩, rfl⟩

theorem mem_of_behind {α : Type} {l : List α} {p : List α × α} (h : p ∈ behind l) : ∀ v ∈ p.1, v ∈ l := by
  have hinit : p.1 ∈ l.inits := (List.of_mem_zip h).1
  exact fun v hv => ((List.mem_inits ..).1 hinit).subset hv

theorem exists_mem_behind {α : Type} {l : List α} {v : α} (h : v ∈ l) : ∃ before, (before, v) ∈ behind l := by
  induction l using List.reverseRecOn with
  | nil => cases h
  | append_singleton l w ih =>
    rw [behind_concat]
    rcases List.mem_append.1 h with h | h
    · obtain ⟨before, hb⟩ := ih h
      exact ⟨before, List.mem_append_left _ hb⟩
    · obtain rfl := List.mem_singleton.1 h
      exact ⟨l, List.mem_append_right _ (List.mem_singleton.2 rfl)⟩

theorem membersUnder_nil {key : Str × Str} {events : List Json} (h : key ∉ keysOf events) :
    membersUnder key events = [] := by
  rw [membersUnder, List.filterMap_eq_nil_iff]
  rintro ⟨before, v⟩ hp
  rw [Option.eq_none_iff_forall_ne_some]
  intro m hm
  obtain ⟨e, n, rfl, hn, hkey, _⟩ := memberUnder_eq_some.1 hm
  exact h (mem_keysOf.2 ⟨_, mem_of_mem_behind hp, n, hn, hkey⟩)

theorem groupsOf_unnumbered (events : List Json) {e : Event} (hn : numberedAs e = none) :
    groupsOf (events ++ [.obj e]) = groupsOf events := by
  unfold groupsOf
  rw [keysOf_concat]
  simp [numberOf, hn, membersUnder_concat, memberUnder]

theorem groupsOf_numbered (events : List Json) {e : Event} {n : Numbering} (hn : numberedAs e = some n) :
    groupsOf (events ++ [.obj e]) =
      (groupsOf events).add (n.keyId, n.sessionId) ⟨n.signerSeq, e, events.any (isAttemptOf e)⟩ := by
  have hmember : ∀ key, membersUnder key (events ++ [.obj e]) = membersUnder key events ++
      if n.key = key then [⟨n.signerSeq, e, events.any (isAttemptOf e)⟩] else [] := by
    intro key
    rw [membersUnder_concat]
    by_cases hk : n.key = key <;> simp [memberUnder, hn, hk]
  have hkey : (n.keyId, n.sessionId) = n.key := rfl
  unfold groupsOf
  rw [keysOf_concat]
  simp only [numberOf, hn, hkey]
  rw [Groups.add_map (keysOf_nodup events)]
  by_cases hin : n.key ∈ keysOf events
  · rw [if_pos hin, if_pos hin]
    refine List.map_congr_left fun key _ => ?_
    by_cases hk : key = n.key
    · simp [hmember, hk]
    · have hne : ¬ n.key = key := fun he => hk he.symm
      simp [hmember, hk, hne]
  · rw [if_neg hin, if_neg hin, List.map_append]
    congr 1
    · refine List.map_congr_left fun key hmem => ?_
      have hne : ¬ n.key = key := by
        rintro rfl
        exact hin hmem
      simp [hmember, hne]
    · simp [hmember, membersUnder_nil hin]

/-- **One event of the first loop.** -/
theorem accountEvent_step (events : List Json) {e : Event}
    (h : (CallKey.inScope (getNull e SESSION_ID) (getNull e ID)).hashable = true) :
    accountEvent ⟨attemptsOf events, groupsOf events⟩ (.obj e) =
      .ok ⟨attemptsOf (events ++ [.obj e]), groupsOf (events ++ [.obj e])⟩ := by
  have hattempts : (if hasText e OUTCOME Outcome.attempted.text then
      CallKey.inScope (getNull e SESSION_ID) (getNull e ID) :: attemptsOf events else attemptsOf events) =
      attemptsOf (events ++ [.obj e]) := by
    rw [attemptsOf_concat, attemptKey]
    split <;> rfl
  simp only [accountEvent, h, ↓reduceIte, correlated_eq, hattempts]
  cases hn : numberedAs e with
  | none => rw [groupsOf_unnumbered events hn]; rfl
  | some n => rw [groupsOf_numbered events hn]; rfl

/-- What is no mapping is passed over. -/
theorem accountEvent_other (events : List Json) {v : Json} (h : ∀ e, v ≠ .obj e) :
    accountEvent ⟨attemptsOf events, groupsOf events⟩ v =
      .ok ⟨attemptsOf (events ++ [v]), groupsOf (events ++ [v])⟩ := by
  cases v with
  | obj e => exact absurd rfl (h e)
  | _ => simp [accountEvent, attemptsOf_concat, attemptKey, groupsOf, keysOf_concat, numberOf, membersUnder_concat,
      memberUnder, pure, Except.pure]

/-- The first loop, of events whose sessions and ids have a hash. -/
theorem accountEvents (events : List Json)
    (h : ∀ e, .obj e ∈ events → (CallKey.inScope (getNull e SESSION_ID) (getNull e ID)).hashable = true) :
    events.foldlM accountEvent ⟨[], []⟩ = .ok ⟨attemptsOf events, groupsOf events⟩ := by
  induction events using List.reverseRecOn with
  | nil => rfl
  | append_singleton events v ih =>
    rw [List.foldlM_append, ih fun e he => h e (List.mem_append_left _ he)]
    simp only [List.foldlM_cons, List.foldlM_nil, bind, Except.bind]
    cases v with
    | obj e =>
      rw [accountEvent_step events (h e (List.mem_append_right _ (List.mem_singleton.2 rfl)))]
      rfl
    | _ =>
      rw [accountEvent_other events (by simp)]
      rfl

/-- An event raises in the first loop by its own session and id. -/
theorem accountEvent_ok_iff (a : Accounting) (v : Json) : (∃ a', accountEvent a v = .ok a') ↔
    ∀ e, v = .obj e → (CallKey.inScope (getNull e SESSION_ID) (getNull e ID)).hashable = true := by
  cases v with
  | obj e =>
    simp only [accountEvent, Json.obj.injEq, forall_eq']
    split
    · next h => simp [h, pure, Except.pure]
    · next h => simp [h, throw, throwThe, MonadExceptOf.throw]
  | _ => simp [accountEvent, pure, Except.pure]

/-! ## One key and session -/

/-- What `isRefusal` answers, where it answers. -/
def GroupMember.refuses (m : GroupMember) : Bool :=
  isHostRefusal m.event && !m.correlated

theorem isRefusal_ok_iff (m : GroupMember) : (∃ b, isRefusal m = .ok b) ↔
    (hasText m.event OUTCOME Outcome.aborted.text = true → (getNull m.event REASON).hashable = true) := by
  unfold isRefusal needHash
  split
  · next h =>
    by_cases hr : (getNull m.event REASON).hashable = true
    · simp [h, hr, bind, Except.bind, pure, Except.pure]
    · simp [h, hr, bind, Except.bind]
  · next h => simp [h, pure, Except.pure]

theorem isRefusal_eq {m : GroupMember} {b : Bool} (h : isRefusal m = .ok b) : b = m.refuses := by
  unfold isRefusal needHash at h
  split at h
  · next ha =>
    by_cases hr : (getNull m.event REASON).hashable = true
    · simp only [hr, ↓reduceIte, bind, Except.bind, pure, Except.pure, Except.ok.injEq] at h
      rw [← h, GroupMember.refuses, isHostRefusal, ha, Bool.true_and]
    · simp [hr, bind, Except.bind] at h
  · next ha =>
    rw [← pure_eq_ok.1 h, GroupMember.refuses, isHostRefusal, eq_false_of_ne_true ha, Bool.false_and, Bool.false_and]

theorem refusals_eq (key : Str × Str) (events : List Json) :
    (((membersUnder key events).filter GroupMember.refuses).map (·.signerSeq)).insertionSort (· ≤ ·) =
      refusalsUnder key events := by
  have hone : ∀ p, ((memberUnder key p).filter GroupMember.refuses).map (·.signerSeq) = refusalUnder key p := by
    rintro ⟨before, v⟩
    cases v with
    | obj e =>
      cases hn : numberedAs e with
      | none => simp [memberUnder, refusalUnder, hn]
      | some n =>
        by_cases hk : n.key = key
        · simp only [memberUnder, refusalUnder, hn, hk, Option.bind_some, ↓reduceIte, Option.filter_some,
            GroupMember.refuses, true_and, Bool.and_eq_true, Bool.not_eq_true']
          split <;> rfl
        · simp [memberUnder, refusalUnder, hn, hk]
    | _ => rfl
  rw [refusalsUnder, membersUnder, List.filter_filterMap, List.map_filterMap]
  simp only [hone]

theorem sealed_eq (key : Str × Str) (events : List Json) :
    ((membersUnder key events).map (·.signerSeq)).toFinset = sealedUnder key events := by
  have hlist : (membersUnder key events).map (·.signerSeq) = numbersUnder key events := by
    induction events using List.reverseRecOn with
    | nil => rfl
    | append_singleton events v ih =>
      rw [membersUnder_concat, List.map_append, ih, numbersUnder, numbersUnder, List.filterMap_append,
        List.filter_append, List.map_append]
      congr 1
      cases v with
      | obj e =>
        cases hn : numberedAs e with
        | none => simp [memberUnder, numberOf, hn]
        | some n => by_cases hk : n.key = key <;> simp [memberUnder, numberOf, hn, hk]
      | _ => rfl
  rw [hlist, sealedUnder]

theorem missingRuns_eq (present : List Nat) :
    missingRuns present = gapRuns 0 (present.dedup.insertionSort (· ≤ ·)) := by
  have hfold : ∀ (vs : List Nat) (runs : List (Nat × Nat)) (lo : Nat), (vs.foldl (fun acc value =>
      (if acc.2 < value then acc.1 ++ [(acc.2, value - 1)] else acc.1, value + 1)) (runs, lo)).1 =
      runs ++ gapRuns lo vs := by
    intro vs
    induction vs with
    | nil => simp [gapRuns]
    | cons v vs ih =>
      intro runs lo
      rw [List.foldl_cons, ih, gapRuns]
      split <;> simp
  rw [missingRuns, hfold, List.nil_append]

/-- The missing runs are those of the gaps. -/
theorem missingRuns_spec (present : List Nat) :
    Apart 0 (missingRuns present) ∧ cells (missingRuns present) = gaps present.toFinset := by
  have hsorted : (present.dedup.insertionSort (· ≤ ·)).Pairwise (· < ·) := by
    refine ((List.pairwise_insertionSort (· ≤ ·) _).and ?_).imp fun h => lt_of_le_of_ne h.1 h.2
    exact (List.perm_insertionSort (· ≤ ·) _).nodup_iff.2 (List.nodup_dedup present)
  obtain ⟨hapart, hmem⟩ := gapRuns_spec hsorted 0 fun _ _ => Nat.zero_le _
  rw [missingRuns_eq]
  refine ⟨hapart, ?_⟩
  ext x
  rw [hmem, mem_gaps]
  simp

/-- **The head-only edit is the set step**: a refusal takes the smallest missing number below its own. -/
theorem accountRefusal_spec {L : List (Nat × Nat)} (h : Apart 0 L) (r : Nat) :
    Apart 0 (accountRefusal L r) ∧ cells (accountRefusal L r) = cover (cells L) r := by
  cases L with
  | nil =>
    have hnone : ∀ m ∈ cells [], r ≤ m := by simp [cells]
    exact ⟨trivial, (cover_of_le hnone).symm⟩
  | cons run L =>
    obtain ⟨a, b⟩ := run
    have hab := h.2.1
    by_cases hra : r ≤ a
    · rw [cover_cells_of_le h hra]
      simp only [accountRefusal, hra, ↓reduceIte, and_true]
      exact h
    · rw [cover_cells_cons h (Nat.lt_of_not_le hra)]
      by_cases hlt : a < b
      · have hnot : ¬ b < a + 1 := by omega
        simp only [accountRefusal, hra, hnot, hlt, ↓reduceIte, and_true]
        exact ⟨Nat.zero_le _, hlt, h.2.2⟩
      · have hend : b < a + 1 := by omega
        simp only [accountRefusal, hra, hend, hlt, ↓reduceIte, and_true]
        exact h.2.2.mono (Nat.zero_le _)

theorem accountRefusals_spec (rs : List Nat) : ∀ {L : List (Nat × Nat)}, Apart 0 L →
    Apart 0 (rs.foldl accountRefusal L) ∧ cells (rs.foldl accountRefusal L) = rs.foldl cover (cells L) := by
  induction rs with
  | nil => exact fun h => ⟨h, rfl⟩
  | cons r rs ih =>
    intro L h
    obtain ⟨hapart, hcells⟩ := accountRefusal_spec h r
    rw [List.foldl_cons, List.foldl_cons, ← hcells]
    exact ih hapart

/-- One group, where its reasons have a hash: the runs of what its refusals leave. -/
theorem unaccountedOf_eq (key : Str × Str) (events : List Json)
    (h : ∀ m ∈ membersUnder key events, ∃ b, isRefusal m = .ok b) :
    unaccountedOf key (membersUnder key events) =
      .ok ((spansOf (leftUnder key events)).map fun run => ⟨key.1, key.2, run.1, run.2⟩) := by
  have hfilter : (membersUnder key events).filterM isRefusal =
      .ok ((membersUnder key events).filter GroupMember.refuses) := by
    refine filterM_eq_filter fun m hm => ?_
    obtain ⟨b, hb⟩ := h m hm
    rw [hb, isRefusal_eq hb]
  obtain ⟨hapart, hcells⟩ := missingRuns_spec ((membersUnder key events).map (·.signerSeq))
  obtain ⟨hapart, hleft⟩ := accountRefusals_spec (refusalsUnder key events) hapart
  rw [hcells, sealed_eq] at hleft
  simp only [unaccountedOf, hfilter, bind, Except.bind, refusals_eq, pure, Except.pure]
  rw [← spansOf_cells hapart, hleft, leftUnder]

/-! ## The whole list -/

theorem accountable_iff (events : List Json) : (∀ v ∈ events, Accountable v) ↔
    (∀ e, .obj e ∈ events → (CallKey.inScope (getNull e SESSION_ID) (getNull e ID)).hashable = true) ∧
      ∀ key ∈ keysOf events, ∀ m ∈ membersUnder key events, ∃ b, isRefusal m = .ok b := by
  constructor
  · intro h
    refine ⟨fun e he => ?_, fun key _ m hm => ?_⟩
    · obtain ⟨hs, hi, _⟩ := h _ he
      simp [CallKey.hashable, hs, hi]
    · obtain ⟨⟨before, v⟩, hp, hm⟩ := List.mem_filterMap.1 hm
      obtain ⟨e, n, rfl, hn, _, rfl⟩ := memberUnder_eq_some.1 hm
      obtain ⟨_, _, hreason⟩ := h _ (mem_of_mem_behind hp)
      exact (isRefusal_ok_iff _).2 (hreason (by rw [hn]; rfl))
  · rintro ⟨hkeys, hreasons⟩ v hv
    cases v with
    | obj e =>
      have hboth := hkeys e hv
      simp only [CallKey.hashable, Bool.and_eq_true] at hboth
      refine ⟨hboth.1, hboth.2, fun hnumbered => ?_⟩
      obtain ⟨n, hn⟩ := Option.isSome_iff_exists.1 hnumbered
      obtain ⟨before, hb⟩ := exists_mem_behind hv
      have hm : ⟨n.signerSeq, e, before.any (isAttemptOf e)⟩ ∈ membersUnder n.key events :=
        List.mem_filterMap.2 ⟨_, hb, memberUnder_eq_some.2 ⟨e, n, rfl, hn, rfl, rfl⟩⟩
      exact (isRefusal_ok_iff _).1 (hreasons n.key (mem_keysOf.2 ⟨_, hv, n, hn, rfl⟩) _ hm)
    | _ => trivial

/-- Where every hashed member has a hash, the report is §11.4's. -/
theorem unaccounted_eq {events : List Json} (h : ∀ v ∈ events, Accountable v) :
    unaccountedSignerSeq events = .ok (accounting events) := by
  obtain ⟨hkeys, hreasons⟩ := (accountable_iff events).1 h
  have hmap : (groupsOf events).mapM (fun g => unaccountedOf g.1 g.2) = .ok ((groupsOf events).map fun g =>
      (spansOf (leftUnder g.1 events)).map fun run => ⟨g.1.1, g.1.2, run.1, run.2⟩) := by
    refine mapM_eq_map fun g hg => ?_
    obtain ⟨key, hkey, rfl⟩ := List.mem_map.1 hg
    exact unaccountedOf_eq key events (hreasons key hkey)
  simp only [unaccountedSignerSeq, accountEvents events hkeys, bind, Except.bind, hmap, pure, Except.pure]
  rw [accounting, List.flatMap_def, groupsOf, List.map_map]
  rfl

/-- And where one has none, there is no report. -/
theorem accountable_of_ok {events : List Json} {gaps : List UnaccountedSignerSeq}
    (h : unaccountedSignerSeq events = .ok gaps) : ∀ v ∈ events, Accountable v := by
  obtain ⟨a, hfold, h⟩ := bind_eq_ok.1 h
  have hkeys := (foldlM_ok_iff accountEvent_ok_iff _).1 ⟨a, hfold⟩
  have hobj : ∀ e, .obj e ∈ events → (CallKey.inScope (getNull e SESSION_ID) (getNull e ID)).hashable = true :=
    fun e he => hkeys _ he e rfl
  refine (accountable_iff events).2 ⟨hobj, fun key hkey m hm => ?_⟩
  rw [accountEvents events hobj] at hfold
  cases hfold
  obtain ⟨runs, hruns, _⟩ := bind_eq_ok.1 h
  obtain ⟨out, hout⟩ := mapM_ok_iff.1 ⟨runs, hruns⟩ (key, membersUnder key events) (List.mem_map.2 ⟨key, hkey, rfl⟩)
  obtain ⟨refusals, hrefusals, _⟩ := bind_eq_ok.1 hout
  exact filterM_ok_iff.1 ⟨refusals, hrefusals⟩ m hm

theorem unaccounted_ok_iff (events : List Json) :
    (∃ gaps, unaccountedSignerSeq events = .ok gaps) ↔ ∀ v ∈ events, Accountable v :=
  ⟨fun h => accountable_of_ok h.choose_spec, fun h => ⟨_, unaccounted_eq h⟩⟩

/-- **The report is §11.4's exactly where every hashed member has a hash.** -/
theorem unaccounted_iff (events : List Json) :
    unaccountedSignerSeq events = .ok (accounting events) ↔ ∀ v ∈ events, Accountable v :=
  ⟨accountable_of_ok, unaccounted_eq⟩

/-- A refusal whose reason is a list. -/
def LISTED_REASON : Json := .obj [(OUTCOME, .str Outcome.aborted.text), (REASON, .arr []), (KEY_ID, .str (lit "k")),
  (SESSION_ID, .str (lit "s")), (SIGNER_SEQ, .int 0)]

/-- The accounting of that one event is empty, and the procedure raises. -/
theorem unaccounted_raises : unaccountedSignerSeq [LISTED_REASON] ≠ .ok (accounting [LISTED_REASON]) ∧
    accounting [LISTED_REASON] = [] ∧ unaccountedSignerSeq [LISTED_REASON] = .error .typeError := by
  have hraise : unaccountedSignerSeq [LISTED_REASON] = .error .typeError := rfl
  refine ⟨?_, by decide +kernel, hraise⟩
  rw [hraise]
  rintro ⟨⟩

end AuditableMcp
