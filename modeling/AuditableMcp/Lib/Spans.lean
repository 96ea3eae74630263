import Mathlib.Data.Finset.Sort
import Mathlib.Order.Lattice.Nat
import Mathlib.Order.Interval.Finset.Nat
/-!
# Finite sets of numbers as maximal runs

A finite set of naturals is one list of its maximal runs, ascending (`spansOf`): the list is known by its
runs lying apart (`Apart`) and covering the set (`cells`), so an algorithm that edits such a list is
compared with what it does to the set.

`gaps` is what is missing up to the largest element; `cover s r` takes from `s` its smallest element below `r`.
-/
namespace Spans

/-- The numbers in a list of runs, each by its first and its last. -/
def cells : List (ℕ × ℕ) → Finset ℕ
  | [] => ∅
  | (a, b) :: L => Finset.Icc a b ∪ cells L

/-- Runs that ascend from `lo` on, and no two of them adjacent. -/
def Apart : ℕ → List (ℕ × ℕ) → Prop
  | _, [] => True
  | lo, (a, b) :: L => lo ≤ a ∧ a ≤ b ∧ Apart (b + 2) L

@[simp] theorem mem_cells_cons {a b x : ℕ} {L : List (ℕ × ℕ)} :
    x ∈ cells ((a, b) :: L) ↔ (a ≤ x ∧ x ≤ b) ∨ x ∈ cells L := by
  simp [cells]

theorem Apart.mono {lo lo' : ℕ} {L : List (ℕ × ℕ)} (h : Apart lo L) (hle : lo' ≤ lo) : Apart lo' L := by
  cases L with
  | nil => trivial
  | cons m L => exact ⟨hle.trans h.1, h.2⟩

theorem Apart.le_of_mem {lo x : ℕ} {L : List (ℕ × ℕ)} (h : Apart lo L) (hx : x ∈ cells L) : lo ≤ x := by
  induction L generalizing lo with
  | nil => simp [cells] at hx
  | cons m L ih =>
    obtain ⟨a, b⟩ := m
    obtain ⟨hlo, hab, hL⟩ := h
    rcases mem_cells_cons.1 hx with hx | hx
    · omega
    · have hle := ih hL hx
      omega

/-- A list of runs apart is known by its cells. -/
theorem Apart.ext {lo : ℕ} {L M : List (ℕ × ℕ)} (hL : Apart lo L) (hM : Apart lo M) (h : cells L = cells M) :
    L = M := by
  induction L generalizing lo M with
  | nil =>
    cases M with
    | nil => rfl
    | cons m M =>
      obtain ⟨a, b⟩ := m
      have ha : a ∈ cells ((a, b) :: M) := mem_cells_cons.2 (.inl ⟨le_rfl, hM.2.1⟩)
      rw [← h] at ha
      simp [cells] at ha
  | cons l L ih =>
    obtain ⟨a, b⟩ := l
    obtain ⟨hlo, hab, hL⟩ := hL
    cases M with
    | nil =>
      have ha : a ∈ cells ((a, b) :: L) := mem_cells_cons.2 (.inl ⟨le_rfl, hab⟩)
      rw [h] at ha
      simp [cells] at ha
    | cons m M =>
      obtain ⟨c, d⟩ := m
      obtain ⟨hlo', hcd, hM⟩ := hM
      have hiff : ∀ x, x ∈ cells ((a, b) :: L) ↔ x ∈ cells ((c, d) :: M) := fun x => by rw [h]
      simp only [mem_cells_cons] at hiff
      have hout : ∀ x, x ∈ cells L → b + 2 ≤ x := fun x hx => hL.le_of_mem hx
      have hout' : ∀ x, x ∈ cells M → d + 2 ≤ x := fun x hx => hM.le_of_mem hx
      -- the first cell, and the first number past the first run, are the same on both sides
      have hac : a = c := by
        have ha := (hiff a).1 (.inl ⟨le_rfl, hab⟩)
        have hc := (hiff c).2 (.inl ⟨le_rfl, hcd⟩)
        rcases ha with ha | ha <;> rcases hc with hc | hc
        · omega
        · have := hout c hc; omega
        · have := hout' a ha; omega
        · have := hout c hc; have := hout' a ha; omega
      subst hac
      have hbd : b = d := by
        have hb := (hiff b).1 (.inl ⟨hab, le_rfl⟩)
        have hd := (hiff d).2 (.inl ⟨hcd, le_rfl⟩)
        rcases lt_trichotomy b d with hlt | heq | hgt
        · have hin := (hiff (b + 1)).2 (.inl ⟨by omega, by omega⟩)
          rcases hin with hin | hin
          · omega
          · have := hout _ hin; omega
        · exact heq
        · have hin := (hiff (d + 1)).1 (.inl ⟨by omega, by omega⟩)
          rcases hin with hin | hin
          · omega
          · have := hout' _ hin; omega
      subst hbd
      have hrest : cells L = cells M := by
        ext x
        constructor
        · intro hx
          have hge := hout x hx
          rcases (hiff x).1 (.inr hx) with hx | hx
          · omega
          · exact hx
        · intro hx
          have hge := hout' x hx
          rcases (hiff x).2 (.inr hx) with hx | hx
          · omega
          · exact hx
      rw [ih hL hM hrest]

/-! ## The runs of a set -/

/-- A number put before the runs of larger ones. -/
def extend (n : ℕ) : List (ℕ × ℕ) → List (ℕ × ℕ)
  | [] => [(n, n)]
  | (a, b) :: L => if a = n + 1 then (n, b) :: L else (n, n) :: (a, b) :: L

/-- The maximal runs of a set, ascending. -/
def spansOf (s : Finset ℕ) : List (ℕ × ℕ) := (s.sort (· ≤ ·)).foldr extend []

@[simp] theorem spansOf_empty : spansOf ∅ = [] := by simp [spansOf]

theorem extend_apart {n : ℕ} {L : List (ℕ × ℕ)} (h : Apart (n + 1) L) : Apart n (extend n L) := by
  cases L with
  | nil => exact ⟨le_rfl, le_rfl, trivial⟩
  | cons m L =>
    obtain ⟨a, b⟩ := m
    obtain ⟨ha, hab, hL⟩ := h
    by_cases hadj : a = n + 1
    · simp only [extend, hadj, ↓reduceIte]
      exact ⟨le_rfl, by omega, hL⟩
    · simp only [extend, hadj, ↓reduceIte]
      exact ⟨le_rfl, le_rfl, by omega, hab, hL⟩

theorem mem_cells_extend {n x : ℕ} {L : List (ℕ × ℕ)} (h : Apart (n + 1) L) :
    x ∈ cells (extend n L) ↔ x = n ∨ x ∈ cells L := by
  cases L with
  | nil =>
    simp only [extend, mem_cells_cons]
    simp [cells]
    omega
  | cons m L =>
    obtain ⟨a, b⟩ := m
    obtain ⟨ha, hab, hL⟩ := h
    by_cases hadj : a = n + 1
    · simp only [extend, hadj, ↓reduceIte, mem_cells_cons, ← or_assoc]
      refine or_congr_left ?_
      omega
    · simp only [extend, hadj, ↓reduceIte, mem_cells_cons, ← or_assoc]
      refine or_congr_left (or_congr_left ?_)
      omega

theorem foldr_extend {l : List ℕ} (h : l.Pairwise (· < ·)) : ∀ lo, (∀ x ∈ l, lo ≤ x) →
    Apart lo (l.foldr extend []) ∧ ∀ x, x ∈ cells (l.foldr extend []) ↔ x ∈ l := by
  induction l with
  | nil => exact fun _ _ => ⟨trivial, fun x => by simp [cells]⟩
  | cons n l ih =>
    rw [List.pairwise_cons] at h
    intro lo hlo
    obtain ⟨hapart, hmem⟩ := ih h.2 (n + 1) h.1
    refine ⟨(extend_apart hapart).mono (hlo n (List.mem_cons_self ..)), fun x => ?_⟩
    rw [List.foldr_cons, mem_cells_extend hapart, hmem, List.mem_cons]

theorem spansOf_apart (s : Finset ℕ) : Apart 0 (spansOf s) :=
  (foldr_extend (s.sortedLT_sort).pairwise 0 fun _ _ => Nat.zero_le _).1

theorem cells_spansOf (s : Finset ℕ) : cells (spansOf s) = s := by
  ext x
  rw [spansOf, (foldr_extend (s.sortedLT_sort).pairwise 0 fun _ _ => Nat.zero_le _).2, Finset.mem_sort]

/-- Runs apart are the runs of their cells. -/
theorem spansOf_cells {L : List (ℕ × ℕ)} (h : Apart 0 L) : spansOf (cells L) = L :=
  (spansOf_apart _).ext h (cells_spansOf _)

/-! ## What is missing up to the largest element -/

/-- The numbers up to the largest of `s` that are not in it. -/
def gaps (s : Finset ℕ) : Finset ℕ := Finset.range (s.sup id) \ s

theorem mem_gaps {s : Finset ℕ} {x : ℕ} : x ∈ gaps s ↔ x ∉ s ∧ ∃ v ∈ s, x < v := by
  have hsup : x < s.sup id ↔ ∃ v ∈ s, x < v := Finset.lt_sup_iff
  rw [gaps, Finset.mem_sdiff, Finset.mem_range, hsup, and_comm]

/-- The gaps before and between the numbers of an ascending list, from `lo` on. -/
def gapRuns : ℕ → List ℕ → List (ℕ × ℕ)
  | _, [] => []
  | lo, v :: vs => if lo < v then (lo, v - 1) :: gapRuns (v + 1) vs else gapRuns (v + 1) vs

theorem gapRuns_spec {vs : List ℕ} (h : vs.Pairwise (· < ·)) : ∀ lo, (∀ v ∈ vs, lo ≤ v) →
    Apart lo (gapRuns lo vs) ∧ ∀ x, x ∈ cells (gapRuns lo vs) ↔ lo ≤ x ∧ x ∉ vs ∧ ∃ v ∈ vs, x < v := by
  induction vs with
  | nil => exact fun _ _ => ⟨trivial, fun x => by simp [gapRuns, cells]⟩
  | cons v vs ih =>
    rw [List.pairwise_cons] at h
    intro lo hlo
    have hv := hlo v (List.mem_cons_self ..)
    obtain ⟨hapart, hmem⟩ := ih h.2 (v + 1) h.1
    have hsplit : ∀ x, (lo ≤ x ∧ x ∉ v :: vs ∧ ∃ w ∈ v :: vs, x < w) ↔
        (lo ≤ x ∧ x < v) ∨ (v + 1 ≤ x ∧ x ∉ vs ∧ ∃ w ∈ vs, x < w) := by
      intro x
      simp only [List.mem_cons, not_or, exists_eq_or_imp]
      constructor
      · rintro ⟨hx, ⟨hne, hnot⟩, hlt | hlt⟩
        · exact .inl ⟨hx, hlt⟩
        · by_cases hxv : x < v
          · exact .inl ⟨hx, hxv⟩
          · exact .inr ⟨by omega, hnot, hlt⟩
      · rintro (⟨hx, hlt⟩ | ⟨hx, hnot, hlt⟩)
        · refine ⟨hx, ⟨by omega, fun hin => ?_⟩, .inl hlt⟩
          have := h.1 x hin
          omega
        · exact ⟨by omega, ⟨by omega, hnot⟩, .inr hlt⟩
    by_cases hlt : lo < v
    · simp only [gapRuns, hlt, ↓reduceIte, mem_cells_cons, hmem, hsplit]
      refine ⟨⟨le_rfl, by omega, ?_⟩, fun x => or_congr_left (by omega)⟩
      exact (show v - 1 + 2 = v + 1 by omega) ▸ hapart
    · obtain rfl : lo = v := by omega
      simp only [gapRuns, lt_irrefl, ↓reduceIte, hmem, hsplit]
      refine ⟨hapart.mono (by omega), fun x => ?_⟩
      rw [or_iff_right_of_imp]
      omega

/-! ## Taking the smallest element below a number -/

/-- `s` without its smallest element below `r`, if it has one. -/
def cover (s : Finset ℕ) (r : ℕ) : Finset ℕ := if h : ∃ m, m ∈ s ∧ m < r then s.erase (Nat.find h) else s

theorem cover_of_le {s : Finset ℕ} {r : ℕ} (h : ∀ m ∈ s, r ≤ m) : cover s r = s := by
  refine dif_neg ?_
  rintro ⟨m, hm, hlt⟩
  have hle := h m hm
  omega

theorem cover_of_min {s : Finset ℕ} {a r : ℕ} (ha : a ∈ s) (hmin : ∀ m ∈ s, a ≤ m) (har : a < r) :
    cover s r = s.erase a := by
  have h : ∃ m, m ∈ s ∧ m < r := ⟨a, ha, har⟩
  have hfind : Nat.find h = a := by
    rw [Nat.find_eq_iff]
    exact ⟨⟨ha, har⟩, fun m hm hin => absurd (hmin m hin.1) (by omega)⟩
  rw [cover, dif_pos h, hfind]

/-- Each number covers at most one element. -/
theorem card_le_card_cover (s : Finset ℕ) (r : ℕ) : s.card ≤ (cover s r).card + 1 := by
  unfold cover
  split
  · have := Finset.pred_card_le_card_erase (s := s) (a := Nat.find ‹_›)
    omega
  · omega

theorem card_le_card_foldl_cover (rs : List ℕ) : ∀ s : Finset ℕ, s.card ≤ (rs.foldl cover s).card + rs.length := by
  induction rs with
  | nil => exact fun s => le_rfl
  | cons r rs ih =>
    intro s
    have hhead := card_le_card_cover s r
    have htail := ih (cover s r)
    simp only [List.foldl_cons, List.length_cons]
    omega

/-- **Greedy covering is complete.** Where the elements can be matched with numbers above them, an element each,
taking the smallest element below each number in ascending order leaves none. -/
theorem foldl_cover_eq_empty {rs : List ℕ} (hrs : rs.Pairwise (· ≤ ·)) : ∀ {s : Finset ℕ} (f : ℕ → ℕ),
    Set.InjOn f s → (∀ m ∈ s, f m ∈ rs ∧ m < f m) → rs.foldl cover s = ∅ := by
  induction rs with
  | nil =>
    intro s f _ hf
    refine Finset.eq_empty_of_forall_notMem fun m hm => ?_
    exact List.not_mem_nil (hf m hm).1
  | cons r rs ih =>
    rw [List.pairwise_cons] at hrs
    intro s f hinj hf
    by_cases hbelow : ∃ m ∈ s, m < r
    · -- the smallest element goes, and what was matched with `r` takes over its match
      obtain ⟨m₀, hm₀, hmin⟩ := s.exists_minimal ⟨_, hbelow.choose_spec.1⟩
      have hle : ∀ m ∈ s, m₀ ≤ m := by
        intro m hm
        rcases le_total m₀ m with h | h
        · exact h
        · exact hmin hm h
      have hlt : m₀ < r := by
        obtain ⟨m, hm, hmr⟩ := hbelow
        have hle' := hle m hm
        omega
      rw [List.foldl_cons, cover_of_min hm₀ hle hlt]
      refine ih hrs.2 (fun m => if f m = r then f m₀ else f m) ?_ fun m hm => ?_
      · intro a ha b hb hab
        simp only [Finset.coe_erase, Set.mem_sdiff, Finset.mem_coe, Set.mem_singleton_iff] at ha hb
        simp only at hab
        by_cases hra : f a = r <;> by_cases hrb : f b = r
        · exact hinj ha.1 hb.1 (hra.trans hrb.symm)
        · rw [if_pos hra, if_neg hrb] at hab
          exact absurd (hinj hm₀ hb.1 hab).symm hb.2
        · rw [if_neg hra, if_pos hrb] at hab
          exact absurd (hinj ha.1 hm₀ hab) ha.2
        · rw [if_neg hra, if_neg hrb] at hab
          exact hinj ha.1 hb.1 hab
      · obtain ⟨hne, hm⟩ := Finset.mem_erase.1 hm
        by_cases hr : f m = r
        · rw [if_pos hr]
          have hne₀ : f m₀ ≠ r := fun h => hne (hinj hm hm₀ (hr.trans h.symm))
          have hin : f m₀ ∈ rs := by simpa [hne₀] using (hf m₀ hm₀).1
          have hge := hrs.1 _ hin
          have hmr := (hf m hm).2
          exact ⟨hin, by omega⟩
        · rw [if_neg hr]
          exact ⟨by simpa [hr] using (hf m hm).1, (hf m hm).2⟩
    · have hle : ∀ m ∈ s, r ≤ m := fun m hm => by
        by_contra hlt
        exact hbelow ⟨m, hm, by omega⟩
      rw [List.foldl_cons, cover_of_le hle]
      refine ih hrs.2 f hinj fun m hm => ?_
      have hrm := hle m hm
      have hlt := (hf m hm).2
      have hne : f m ≠ r := by omega
      exact ⟨by simpa [hne] using (hf m hm).1, hlt⟩

/-- What a number covers of runs apart, it takes from the head of the first. -/
theorem cover_cells_cons {lo a b r : ℕ} {L : List (ℕ × ℕ)} (h : Apart lo ((a, b) :: L)) (har : a < r) :
    cover (cells ((a, b) :: L)) r = if a < b then cells ((a + 1, b) :: L) else cells L := by
  obtain ⟨_, hab, hL⟩ := h
  have hout : ∀ x, x ∈ cells L → b + 2 ≤ x := fun x hx => hL.le_of_mem hx
  have hmin : ∀ m ∈ cells ((a, b) :: L), a ≤ m := by
    intro m hm
    rcases mem_cells_cons.1 hm with hm | hm
    · exact hm.1
    · have := hout m hm
      omega
  rw [cover_of_min (mem_cells_cons.2 (.inl ⟨le_rfl, hab⟩)) hmin har]
  ext x
  rw [Finset.mem_erase, mem_cells_cons]
  by_cases hlt : a < b
  · rw [if_pos hlt, mem_cells_cons]
    constructor
    · rintro ⟨hne, hx | hx⟩
      · exact .inl ⟨by omega, hx.2⟩
      · exact .inr hx
    · rintro (hx | hx)
      · exact ⟨by omega, .inl ⟨by omega, hx.2⟩⟩
      · have := hout x hx
        exact ⟨by omega, .inr hx⟩
  · rw [if_neg hlt]
    constructor
    · rintro ⟨hne, hx | hx⟩
      · omega
      · exact hx
    · intro hx
      have := hout x hx
      exact ⟨by omega, .inr hx⟩

theorem cover_cells_of_le {lo a b r : ℕ} {L : List (ℕ × ℕ)} (h : Apart lo ((a, b) :: L)) (hra : r ≤ a) :
    cover (cells ((a, b) :: L)) r = cells ((a, b) :: L) := by
  refine cover_of_le fun m hm => ?_
  have hin : Apart a ((a, b) :: L) := ⟨le_rfl, h.2⟩
  exact hra.trans (hin.le_of_mem hm)

end Spans
