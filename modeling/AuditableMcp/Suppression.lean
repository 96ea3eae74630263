import AuditableMcp.Untrusted
/-!
# A suppressed record leaves its number unaccounted for

Some numbered events are taken out of a ledger whose refusals explain exactly its missing numbers
(`Suppressed`). Each number taken out is one more that is missing, no refusal is gained, and a refusal
accounts for one number at most: something is left, and `verify_chain` reports it wherever it answers
(`suppression_detected_iff`).
-/
namespace AuditableMcp

open JsonValue Spans

/-- Events, each kept or taken out. -/
abbrev Marked := List (Event × Bool)

def Marked.all (m : Marked) : List Json := m.map fun x => .obj x.1
def Marked.kept (m : Marked) : List Json := (m.filter (·.2)).map fun x => .obj x.1

/-- What is taken out of a ledger in balance: numbered events, among them no refusal that accounts for a number
and no attempt a refusal answers, and the largest number of every session stays. -/
structure Suppressed (m : Marked) : Prop where
  accounted : unaccountedSignerSeq m.all = .ok []
  distinct : ∀ key, (numbersUnder key m.all).Nodup
  balanced : ∀ key ∈ keysOf m.all, (refusalsUnder key m.all).length = (gaps (sealedUnder key m.all)).card
  nonempty : ∃ e, (e, false) ∈ m
  numbered : ∀ e, (e, false) ∈ m → ∃ n, numberedAs e = some n
  refusalsKept : ∀ before e after, m = before ++ (e, false) :: after →
    ∀ key, refusalUnder key (Marked.all before, .obj e) = none
  answeredKept : ∀ before e after, m = before ++ (e, false) :: after →
    ∀ w ∈ after, isHostRefusal w.1 = true → isAttemptOf w.1 (.obj e) = false
  largestKept : ∀ e n, (e, false) ∈ m → numberedAs e = some n → ∃ w k, (w, true) ∈ m ∧ numberedAs w = some k ∧
    k.key = n.key ∧ ∀ x ∈ sealedUnder n.key m.all, x ≤ k.signerSeq

section Counting

variable {m : Marked}

@[simp] theorem Marked.all_append (m m' : Marked) : Marked.all (m ++ m') = Marked.all m ++ Marked.all m' :=
  List.map_append

@[simp] theorem Marked.kept_append (m m' : Marked) : Marked.kept (m ++ m') = Marked.kept m ++ Marked.kept m' := by
  simp [Marked.kept]

theorem Marked.kept_sublist (m : Marked) : (Marked.kept m).Sublist (Marked.all m) := List.filter_sublist.map _

/-- No refusal is gained and none is lost. -/
theorem refusalsUnder_kept (key : Str × Str)
    (hr : ∀ before e after, m = before ++ (e, false) :: after → refusalUnder key (Marked.all before, .obj e) = none)
    (ha : ∀ before e after, m = before ++ (e, false) :: after →
      ∀ w ∈ after, isHostRefusal w.1 = true → isAttemptOf w.1 (.obj e) = false) :
    (behind (Marked.kept m)).filterMap (refusalUnder key) = (behind (Marked.all m)).filterMap (refusalUnder key) := by
  induction m using List.reverseRecOn with
  | nil => rfl
  | append_singleton m x ih =>
    obtain ⟨e, kept⟩ := x
    have hrest := ih (fun before w after hm => hr before w (after ++ [(e, kept)]) (by rw [hm]; simp))
      (fun before w after hm u hu => ha before w (after ++ [(e, kept)]) (by rw [hm]; simp) u (List.mem_append_left _ hu))
    rw [Marked.all_append, Marked.kept_append, show Marked.all [(e, kept)] = [.obj e] from rfl, behind_concat,
      List.filterMap_append, ← hrest]
    cases kept with
    | false =>
      have hnone := hr m e [] rfl
      simp [Marked.kept, hnone]
    | true =>
      have hsame : refusalUnder key (Marked.kept m, .obj e) = refusalUnder key (Marked.all m, .obj e) := by
        by_cases href : isHostRefusal e = true
        · -- the attempts taken out are none of this refusal's
          have hany : (Marked.kept m).any (isAttemptOf e) = (Marked.all m).any (isAttemptOf e) := by
            rw [Bool.eq_iff_iff, List.any_eq_true, List.any_eq_true]
            constructor
            · rintro ⟨v, hv, hatt⟩
              exact ⟨v, (Marked.kept_sublist m).subset hv, hatt⟩
            · rintro ⟨v, hv, hatt⟩
              obtain ⟨⟨w, keptw⟩, hw, rfl⟩ := List.mem_map.1 hv
              cases keptw with
              | true => exact ⟨_, List.mem_map.2 ⟨(w, true), List.mem_filter.2 ⟨hw, rfl⟩, rfl⟩, hatt⟩
              | false =>
                obtain ⟨before, after, rfl⟩ := List.append_of_mem hw
                have hnot := ha before w (after ++ [(e, true)]) (by simp) (e, true) (by simp) href
                rw [hatt] at hnot
                cases hnot
          simp only [refusalUnder, hany]
        · simp [refusalUnder, href]
      have hone : Marked.kept [(e, true)] = [.obj e] := rfl
      rw [hone, behind_concat, List.filterMap_append]
      simp only [List.filterMap_cons, hsame]

theorem numbersUnder_append (key : Str × Str) (l l' : List Json) :
    numbersUnder key (l ++ l') = numbersUnder key l ++ numbersUnder key l' := by
  simp [numbersUnder]

theorem numbersUnder_sublist (key : Str × Str) {l l' : List Json} (h : l.Sublist l') :
    (numbersUnder key l).Sublist (numbersUnder key l') := ((h.filterMap _).filter _).map _

/-- A number taken out is not sealed any more. -/
theorem Suppressed.gone (h : Suppressed m) {e : Event} (he : (e, false) ∈ m) {n : Numbering}
    (hn : numberedAs e = some n) : n.signerSeq ∉ sealedUnder n.key (Marked.kept m) := by
  obtain ⟨before, after, rfl⟩ := List.append_of_mem he
  have hdistinct := h.distinct n.key
  have hone : numbersUnder n.key (Marked.all [(e, false)]) = [n.signerSeq] := by
    simp [numbersUnder, Marked.all, numberOf, hn]
  have hsplit : before ++ (e, false) :: after = before ++ ([(e, false)] ++ after) := rfl
  rw [hsplit, Marked.all_append, Marked.all_append, numbersUnder_append, numbersUnder_append, hone,
    List.nodup_append] at hdistinct
  obtain ⟨_, hafter, hbefore⟩ := hdistinct
  rw [sealedUnder, List.mem_toFinset, hsplit, Marked.kept_append, Marked.kept_append, numbersUnder_append,
    numbersUnder_append]
  have hnone : numbersUnder n.key (Marked.kept [(e, false)]) = [] := rfl
  rw [hnone, List.nil_append, List.mem_append]
  rintro (hin | hin)
  · exact hbefore _ ((numbersUnder_sublist _ (Marked.kept_sublist before)).subset hin) _ (by simp) rfl
  · have hnotin := (List.nodup_cons.1 hafter).1
    exact hnotin ((numbersUnder_sublist _ (Marked.kept_sublist after)).subset hin)

/-- **One more number is missing.** -/
theorem Suppressed.gaps_card (h : Suppressed m) {e : Event} (he : (e, false) ∈ m) {n : Numbering}
    (hn : numberedAs e = some n) :
    (gaps (sealedUnder n.key (Marked.all m))).card < (gaps (sealedUnder n.key (Marked.kept m))).card := by
  have hgone := h.gone he hn
  obtain ⟨w, k, hw, hk, hkey, hmax⟩ := h.largestKept e n he hn
  have hwkept : k.signerSeq ∈ sealedUnder n.key (Marked.kept m) := by
    rw [sealedUnder, List.mem_toFinset, mem_numbersUnder]
    exact ⟨w, k, List.mem_map.2 ⟨(w, true), List.mem_filter.2 ⟨hw, rfl⟩, rfl⟩, hk, hkey, rfl⟩
  have hsealed : n.signerSeq ∈ sealedUnder n.key (Marked.all m) := by
    rw [sealedUnder, List.mem_toFinset, mem_numbersUnder]
    exact ⟨e, n, List.mem_map.2 ⟨(e, false), he, rfl⟩, hn, rfl, rfl⟩
  have hsub : sealedUnder n.key (Marked.kept m) ⊆ sealedUnder n.key (Marked.all m) := by
    intro x hx
    rw [sealedUnder, List.mem_toFinset] at hx ⊢
    exact (numbersUnder_sublist _ (Marked.kept_sublist m)).subset hx
  refine Finset.card_lt_card (Finset.ssubset_iff_of_subset ?_ |>.2 ⟨n.signerSeq, ?_, ?_⟩)
  · intro x hx
    obtain ⟨hnot, v, hv, hlt⟩ := mem_gaps.1 hx
    exact mem_gaps.2 ⟨fun hin => hnot (hsub hin), k.signerSeq, hwkept, hlt.trans_le (hmax v hv)⟩
  · refine mem_gaps.2 ⟨hgone, k.signerSeq, hwkept, lt_of_le_of_ne (hmax _ hsealed) ?_⟩
    intro heq
    exact hgone (heq ▸ hwkept)
  · exact fun hin => (mem_gaps.1 hin).1 hsealed

/-- Something is left unaccounted for. -/
theorem Suppressed.accounting_ne_nil (h : Suppressed m) : accounting (Marked.kept m) ≠ [] := by
  obtain ⟨e, he⟩ := h.nonempty
  obtain ⟨n, hn⟩ := h.numbered e he
  have hkeyall : n.key ∈ keysOf (Marked.all m) :=
    mem_keysOf.2 ⟨_, List.mem_map.2 ⟨(e, false), he, rfl⟩, n, hn, rfl⟩
  have hrefusals : refusalsUnder n.key (Marked.kept m) = refusalsUnder n.key (Marked.all m) := by
    rw [refusalsUnder, refusalsUnder, refusalsUnder_kept n.key
      (fun before w after hm => h.refusalsKept before w after hm n.key) h.answeredKept]
  have hcount := card_le_card_foldl_cover (refusalsUnder n.key (Marked.kept m))
    (gaps (sealedUnder n.key (Marked.kept m)))
  have hmore := h.gaps_card he hn
  have hbalanced := h.balanced n.key hkeyall
  rw [hrefusals, hbalanced, ← hrefusals, ← leftUnder] at hcount
  have hleft : (leftUnder n.key (Marked.kept m)).Nonempty := Finset.card_pos.1 (by omega)
  obtain ⟨w, k, hw, hk, hkey, _⟩ := h.largestKept e n he hn
  have hkeykept : n.key ∈ keysOf (Marked.kept m) :=
    mem_keysOf.2 ⟨_, List.mem_map.2 ⟨(w, true), List.mem_filter.2 ⟨hw, rfl⟩, rfl⟩, k, hk, hkey⟩
  have hspans : spansOf (leftUnder n.key (Marked.kept m)) ≠ [] := by
    intro hnil
    have hcells := cells_spansOf (leftUnder n.key (Marked.kept m))
    rw [hnil] at hcells
    exact hleft.ne_empty hcells.symm
  intro hnil
  have hone := List.flatMap_eq_nil_iff.1 hnil n.key hkeykept
  exact hspans (List.map_eq_nil_iff.1 hone)

theorem Suppressed.accountable (h : Suppressed m) : ∀ v ∈ Marked.kept m, Accountable v :=
  fun v hv => accountable_of_ok h.accounted v ((Marked.kept_sublist m).subset hv)

end Counting

/-! ## `verify_chain` over the records that are left -/

section Report

variable {W : World}

/-- Without checkers and expectations, only position and correlation can raise. -/
theorem chainStep_default {before : List RawRecord} {r : RawRecord} {s : ChainState} (hs : AttemptsOf before s) :
    (∃ s', chainStep W {} before.length r s = .ok s') ↔ CallHashable r.event ∧ Writable before r := by
  rw [← position_call_ok_iff (W := W) (o := {}) rfl hs]
  constructor
  · rintro ⟨s', h⟩
    obtain ⟨q, inner, corr, p, g, c, i, hq, hinner, hcorr, _⟩ := chainStep_eq_ok.1 h
    cases hinner
    exact ⟨⟨q, hq⟩, corr, hcorr⟩
  · rintro ⟨⟨q, hq⟩, corr, hcorr⟩
    obtain ⟨g, hg⟩ : ∃ g, signatureCheck {} r (recompute W r s.prevRecomputed).hashable r.event = .ok g := by
      cases r.event with
      | obj e =>
        simp only [signatureCheck]
        split <;> exact ⟨_, rfl⟩
      | _ => exact ⟨_, rfl⟩
    obtain ⟨c, hc⟩ : ∃ c, countersignatureCheck W {} r (recompute W r s.prevRecomputed).hashable = .ok c := by
      unfold countersignatureCheck
      split
      · exact ⟨_, rfl⟩
      · split
        · exact ⟨_, rfl⟩
        · split <;> exact ⟨_, rfl⟩
    exact ⟨_, chainStep_eq_ok.2 ⟨q, r.event, corr, [], g, c, [], hq, rfl, hcorr, rfl, hg, hc, rfl, rfl⟩⟩

/-- **A number taken out is found missing**, and reported exactly where the loop answers: an event with an id and no
session has a `call_id` with a hash, and what a finding writes of a record can be written. -/
theorem suppression_detected_iff (W : World) {m : Marked} (h : Suppressed m) {rs : List RawRecord}
    (hrs : rs.map (·.event) = Marked.kept m) :
    ((∃ first rest, unaccountedSignerSeq (Marked.kept m) = .ok (first :: rest)) ∧
      ∃ report, verifyChain W {} rs = .ok report ∧ ∃ i ∈ report.issues, i.kind = .signerSeqGap) ↔
    (∀ e, .obj e ∈ Marked.kept m → getNull e ID ≠ .null → get e SESSION_ID = none →
      (getNull e CALL_ID).hashable = true) ∧ Along Writable [] rs := by
  obtain ⟨first, rest, hlist⟩ := List.exists_cons_of_ne_nil h.accounting_ne_nil
  have hleft := unaccounted_eq h.accountable
  rw [hlist] at hleft
  have hevents : rs.mapM (fun r => ({} : VerifyOptions).adapter.eventOf r.event) = .ok (rs.map (·.event)) :=
    mapM_eq_map fun _ _ => rfl
  have hcall : (∀ r ∈ rs, CallHashable r.event) ↔ ∀ e, .obj e ∈ Marked.kept m → getNull e ID ≠ .null →
      get e SESSION_ID = none → (getNull e CALL_ID).hashable = true := by
    rw [← List.forall_mem_map (f := RawRecord.event) (P := CallHashable), hrs]
    constructor
    · intro hall e he hid hsession
      obtain ⟨e', heq, hkey⟩ := hall _ he
      cases heq
      have hboth := hkey hid
      rw [keyOf, CallKey.hashable, scopeOf, hsession, Bool.and_eq_true] at hboth
      exact hboth.1
    · intro hall v hv
      obtain ⟨x, hx, rfl⟩ := List.mem_map.1 hv
      obtain ⟨hs, hi, _⟩ := h.accountable _ hv
      refine ⟨x.1, rfl, fun hid => ?_⟩
      rw [keyOf, CallKey.hashable, hi, Bool.and_true, scopeOf]
      cases hsession : get x.1 SESSION_ID with
      | none => exact hall _ hv hid hsession
      | some w => simpa [getNull, hsession] using hs
  have hstart : AttemptsOf [] .initial := fun _ _ => rfl
  have hloop : (∃ s', chainLoop W {} 0 rs .initial = .ok s') ↔
      Along (fun b r => Writable b r ∧ CallHashable r.event) [] rs :=
    chainLoop_along (W := W) (I := AttemptsOf) (fun _ _ _ hs => by rw [chainStep_default hs, and_comm])
      (fun _ _ _ _ hs h => attemptsOf_step rfl hs h) hstart
  rw [← hcall, and_comm (b := Along Writable [] rs), ← along_and, ← hloop]
  constructor
  · rintro ⟨_, report, hreport, _⟩
    obtain ⟨_, s, _, _, hs, _⟩ := verifyChain_eq_ok.1 hreport
    exact ⟨s, hs⟩
  · rintro ⟨s, hs⟩
    rw [hrs] at hevents
    refine ⟨⟨first, rest, hleft⟩, _, verifyChain_eq_ok.2 ⟨rfl, s, _, _, hs, hevents, hleft, rfl⟩, gapIssue W first, ?_, rfl⟩
    simp

end Report

/-! ## Three numbers, the middle one taken out -/

/-- An event numbered `n` of one session. -/
def plainEvent (n : Nat) : Event :=
  [(KEY_ID, .str (lit "k")), (SESSION_ID, .str (lit "s")), (ID, .str (natText n)), (SIGNER_SEQ, .int n)]

/-- Behind an event of no session, with a `call_id`. -/
def taken (call : Json) : Marked :=
  [([(ID, .str (lit "x")), (CALL_ID, call)], true), (plainEvent 0, true), (plainEvent 1, false), (plainEvent 2, true)]

theorem eq_of_taken {call : Json} {e : Event} (h : (e, false) ∈ taken call) : e = plainEvent 1 := by
  simpa [taken] using h

theorem numbersUnder_taken (call : Json) (key : Str × Str) :
    numbersUnder key (Marked.all (taken call)) = if key = (lit "k", lit "s") then [0, 1, 2] else [] := by
  have hnumbers : (Marked.all (taken call)).filterMap numberOf =
      [⟨lit "k", lit "s", 0⟩, ⟨lit "k", lit "s", 1⟩, ⟨lit "k", lit "s", 2⟩] := rfl
  unfold numbersUnder
  rw [hnumbers]
  by_cases h : key = (lit "k", lit "s")
  · simp [h, Numbering.key]
  · have hne : ¬ (lit "k", lit "s") = key := fun he => h he.symm
    simp [h, hne, Numbering.key]

theorem taken_suppressed (call : Json) : Suppressed (taken call) where
  accounted := rfl
  distinct key := by
    rw [numbersUnder_taken]
    split <;> decide
  balanced key hkey := by
    have hkeys : keysOf (Marked.all (taken call)) = [(lit "k", lit "s")] := rfl
    rw [hkeys, List.mem_singleton] at hkey
    have hrefusals : refusalsUnder key (Marked.all (taken call)) = [] := by
      subst hkey
      rfl
    rw [hrefusals, sealedUnder, numbersUnder_taken, if_pos hkey]
    decide
  nonempty := ⟨plainEvent 1, by simp [taken]⟩
  numbered e he := by
    obtain rfl := eq_of_taken he
    exact ⟨_, rfl⟩
  refusalsKept before e after h key := by
    obtain rfl := @eq_of_taken call e (by rw [h]; simp)
    have hplain : isHostRefusal (plainEvent 1) = false := rfl
    cases hn : numberedAs (plainEvent 1) <;> simp [refusalUnder, hn, hplain]
  answeredKept before e after h w _ _ := by
    obtain rfl := @eq_of_taken call e (by rw [h]; simp)
    rfl
  largestKept e n he hn := by
    obtain rfl := eq_of_taken he
    obtain rfl : (⟨lit "k", lit "s", 1⟩ : Numbering) = n := Option.some.inj hn
    refine ⟨plainEvent 2, ⟨lit "k", lit "s", 2⟩, by simp [taken], rfl, rfl, fun x hx => ?_⟩
    have hkey : (⟨lit "k", lit "s", 1⟩ : Numbering).key = (lit "k", lit "s") := rfl
    rw [sealedUnder, numbersUnder_taken, if_pos hkey, List.mem_toFinset] at hx
    have hle : ∀ y ∈ [0, 1, 2], y ≤ 2 := by decide
    exact hle x hx

/-- Records of events, all of one number. -/
def recordOf (v : Json) : RawRecord := ⟨v, .int 0, .str [], .str [], .str [], .null, .null, .null⟩

/-- What a finding writes of them can be written. -/
theorem taken_writable {call : Json} (hfits : intsFit call = true) :
    Along Writable [] ((Marked.kept (taken call)).map recordOf) := by
  have hrecord : ∀ {before : List RawRecord} {e : Event}, intsFit (scopeOf e) = true → intsFit (getNull e ID) = true →
      Writable before (recordOf (.obj e)) := by
    intro before e hscope hid
    refine ⟨.inr rfl, fun e' he' _ => ?_⟩
    obtain rfl := Json.obj.inj he'
    exact ⟨hscope, hid⟩
  exact ⟨hrecord hfits rfl, hrecord rfl rfl, hrecord rfl rfl, trivial⟩

theorem suppression_detected_iff_taken :
    (∃ first rest, unaccountedSignerSeq (Marked.kept (taken (.str (lit "c")))) = .ok (first :: rest)) ∧
      ∃ report, verifyChain reference {} ((Marked.kept (taken (.str (lit "c")))).map recordOf) = .ok report ∧
        ∃ i ∈ report.issues, i.kind = .signerSeqGap := by
  have hevents : ((Marked.kept (taken (.str (lit "c")))).map recordOf).map (·.event) =
      Marked.kept (taken (.str (lit "c"))) := by
    rw [List.map_map]
    exact List.map_id _
  have hcall : ∀ x ∈ taken (.str (lit "c")), (getNull x.1 CALL_ID).hashable = true := by decide
  refine (suppression_detected_iff reference (taken_suppressed _) hevents).2 ⟨fun e he _ _ => ?_, taken_writable rfl⟩
  obtain ⟨x, hx, heq⟩ := List.mem_map.1 he
  obtain rfl := Json.obj.inj heq
  exact hcall x (List.mem_filter.1 hx).1

/-- With a list for a `call_id`, `verify_chain` raises and reports nothing. -/
theorem suppression_unreported : Suppressed (taken (.arr [])) ∧ ¬ ∃ report, verifyChain reference {}
    ((Marked.kept (taken (.arr []))).map recordOf) = .ok report ∧ ∃ i ∈ report.issues, i.kind = .signerSeqGap := by
  have hraise : verifyChain reference {} ((Marked.kept (taken (.arr []))).map recordOf) = .error .typeError := rfl
  refine ⟨taken_suppressed _, ?_⟩
  rw [hraise]
  rintro ⟨report, h, _⟩
  cases h

end AuditableMcp
