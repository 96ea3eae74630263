import Mathlib.Data.List.Forall2
import Mathlib.Data.List.Induction
/-!
# Hash chains

A chain is a list of records, each naming its position, the hash of the record before it, and a hash
of its own. What makes a record's own hash the right one is a parameter (`Links.ok`), so one chain may
be of records a writer sealed and another of records a reader was handed.

* `Chain` from a position and a link; `chain_append`, and its reading by index (`chain_getElem?`).
* `commit` — the last hash commits to the whole chain: over a hash that determines what it is over,
  two chains with one last hash agree record by record, in particular in length.
-/
namespace HashChain

/-- How a record is read as a link of a chain. -/
structure Links (ρ H : Type) where
  seq : ρ → Nat
  prev : ρ → H
  hash : ρ → H
  ok : ρ → Prop

variable {ρ ρ' H : Type}

/-- The hash at the end of a chain that starts from `t`. -/
def tail (L : Links ρ H) (t : H) (rs : List ρ) : H := rs.foldl (fun _ r => L.hash r) t

@[simp] theorem tail_nil (L : Links ρ H) (t : H) : tail L t [] = t := rfl

@[simp] theorem tail_cons (L : Links ρ H) (t : H) (r : ρ) (rs : List ρ) :
    tail L t (r :: rs) = tail L (L.hash r) rs := rfl

@[simp] theorem tail_concat (L : Links ρ H) (t : H) (rs : List ρ) (r : ρ) :
    tail L t (rs ++ [r]) = L.hash r := by simp [tail]

/-- `rs` continues a chain of `n` records whose last hash is `t`. -/
def Chain (L : Links ρ H) : Nat → H → List ρ → Prop
  | _, _, [] => True
  | n, t, r :: rs => L.seq r = n ∧ L.prev r = t ∧ L.ok r ∧ Chain L (n + 1) (L.hash r) rs

theorem chain_append (L : Links ρ H) (xs ys : List ρ) : ∀ (n : Nat) (t : H),
    Chain L n t (xs ++ ys) ↔ Chain L n t xs ∧ Chain L (n + xs.length) (tail L t xs) ys := by
  induction xs with
  | nil => simp [Chain]
  | cons x xs ih =>
    intro n t
    simp only [List.cons_append, Chain, ih, tail_cons, List.length_cons]
    rw [show n + 1 + xs.length = n + (xs.length + 1) by omega]
    tauto

theorem chain_concat (L : Links ρ H) {n : Nat} {t : H} {rs : List ρ} {r : ρ} :
    Chain L n t (rs ++ [r]) ↔
      Chain L n t rs ∧ L.seq r = n + rs.length ∧ L.prev r = tail L t rs ∧ L.ok r := by
  simp [chain_append, Chain]

/-- A chain by index: each record has its position, the hash before it, and its own right hash. -/
theorem chain_getElem? (L : Links ρ H) {t : H} {rs : List ρ} (h : Chain L 0 t rs) {i : Nat} {r : ρ}
    (hr : rs[i]? = some r) : L.seq r = i ∧ L.prev r = tail L t (rs.take i) ∧ L.ok r := by
  obtain ⟨hi, rfl⟩ := List.getElem?_eq_some_iff.1 hr
  have hsplit : rs = rs.take i ++ rs[i] :: rs.drop (i + 1) := by
    rw [← List.drop_eq_getElem_cons hi, List.take_append_drop]
  have hc := h
  rw [hsplit, chain_append] at hc
  obtain ⟨_, hseq, hprev, hok, _⟩ := hc
  rw [List.length_take, Nat.min_eq_left (by omega), Nat.zero_add] at hseq
  exact ⟨hseq, hprev, hok⟩

/-- The last hash of a non-empty beginning of a list is the hash of its last record. -/
theorem tail_take_succ (L : Links ρ H) (t : H) {rs : List ρ} {i : Nat} {r : ρ} (hr : rs[i]? = some r) :
    tail L t (rs.take (i + 1)) = L.hash r := by
  rw [List.take_add_one, hr]; simp

/-- **The last hash commits to the chain.** `Same` is what equal hashes of right records determine. -/
theorem commit {L : Links ρ H} {L' : Links ρ' H} {g : H} {Same : ρ → ρ' → Prop}
    (hinj : ∀ r r', L.ok r → L'.ok r' → L.hash r = L'.hash r' →
      L.seq r = L'.seq r' ∧ L.prev r = L'.prev r' ∧ Same r r')
    (hg : ∀ r, L.ok r → L.hash r ≠ g) (hg' : ∀ r, L'.ok r → L'.hash r ≠ g) (rs : List ρ) :
    ∀ rs' : List ρ', Chain L 0 g rs → Chain L' 0 g rs' → tail L g rs = tail L' g rs' →
      List.Forall₂ Same rs rs' := by
  induction rs using List.reverseRecOn with
  | nil =>
    intro rs' _ hc' ht
    rcases List.eq_nil_or_concat' rs' with rfl | ⟨rs', r', rfl⟩
    · exact .nil
    · rw [chain_concat] at hc'
      rw [tail_nil, tail_concat] at ht
      exact absurd ht.symm (hg' r' hc'.2.2.2)
  | append_singleton rs r ih =>
    intro rs' hc hc' ht
    rw [chain_concat] at hc
    rw [tail_concat] at ht
    rcases List.eq_nil_or_concat' rs' with rfl | ⟨rs', r', rfl⟩
    · exact absurd ht (hg r hc.2.2.2)
    · rw [chain_concat] at hc'
      rw [tail_concat] at ht
      obtain ⟨_, hp, hsame⟩ := hinj r r' hc.2.2.2 hc'.2.2.2 ht
      -- the links before the last records are equal too, so the chains before them are
      have hbefore := ih rs' hc.1 hc'.1 (by rw [← hc.2.2.1, hp, hc'.2.2.1])
      exact List.rel_append hbefore (.cons hsame .nil)

end HashChain
