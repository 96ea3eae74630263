import Mathlib.Data.List.Nodup
/-!
# Dictionaries that keep the order of insertion

A Python `dict` is the list of its items, in the order their keys were first put there. Assignment to a key
replaces its value where it stands (`assign`), and puts a new key last; `without` is the list after `del` or `pop`.

`Dict` carries that no key stands twice, so what a dictionary holds is what its lookups find (`get_eq_some`).
`Indexes` is a dictionary as an index: what each owner says are its keys is what the dictionary has for it.
-/
universe u v w

/-- A dictionary. -/
@[ext] structure Dict (κ : Type u) (β : Type v) where
  items : List (κ × β)
  nodup : (items.map Prod.fst).Nodup

namespace Dict

variable {κ : Type u} {β : Type v}

/-! ## Lists of items -/

section
variable [BEq κ]

/-- `d[k] = v`. -/
def assign (k : κ) (v : β) : List (κ × β) → List (κ × β)
  | [] => [(k, v)]
  | (a, w) :: items => if a == k then (a, v) :: items else (a, w) :: assign k v items

/-- `del d[k]`. -/
def without (k : κ) (items : List (κ × β)) : List (κ × β) := items.filter fun i => i.1 != k

theorem length_assign_le (k : κ) (v : β) (items : List (κ × β)) : (assign k v items).length ≤ items.length + 1 := by
  induction items with
  | nil => simp [assign]
  | cons i items ih =>
    simp only [assign]
    split
    · simp
    · simpa using ih

theorem nodup_without {items : List (κ × β)} (h : (items.map Prod.fst).Nodup) (k : κ) :
    ((without k items).map Prod.fst).Nodup :=
  h.sublist (List.filter_sublist.map _)

variable [LawfulBEq κ]

theorem lookup_assign (k j : κ) (v : β) (items : List (κ × β)) :
    (assign k v items).lookup j = if j == k then some v else items.lookup j := by
  induction items with
  | nil => cases hj : j == k <;> simp [assign, List.lookup_cons, hj]
  | cons i items ih =>
    obtain ⟨a, w⟩ := i
    by_cases ha : a = k
    · subst ha
      cases hj : j == a <;> simp [assign, List.lookup_cons, hj]
    · have hak : (a == k) = false := beq_false_of_ne ha
      rw [assign, hak]
      cases hj : j == a with
      | false => simpa [List.lookup_cons, hj] using ih
      | true =>
        obtain rfl := eq_of_beq hj
        simp [hak]

theorem lookup_without (k j : κ) (items : List (κ × β)) :
    (without k items).lookup j = if j == k then none else items.lookup j := by
  induction items with
  | nil => simp [without]
  | cons i items ih =>
    obtain ⟨a, w⟩ := i
    rw [without] at ih ⊢
    by_cases ha : a = k
    · subst ha
      rw [List.filter_cons_of_neg (by simp), ih, List.lookup_cons]
      cases j == a <;> rfl
    · have hak : (a == k) = false := beq_false_of_ne ha
      rw [List.filter_cons_of_pos (by simp [ha]), List.lookup_cons, List.lookup_cons, ih]
      cases hj : j == a with
      | false => rfl
      | true =>
        obtain rfl := eq_of_beq hj
        simp [hak]

theorem keys_assign (k : κ) (v : β) (items : List (κ × β)) :
    (assign k v items).map Prod.fst =
      if k ∈ items.map Prod.fst then items.map Prod.fst else items.map Prod.fst ++ [k] := by
  induction items with
  | nil => simp [assign]
  | cons i items ih =>
    obtain ⟨a, w⟩ := i
    by_cases ha : a = k
    · simp [assign, ha]
    · have hk : k ≠ a := fun h => ha h.symm
      simp only [assign, beq_iff_eq, ha, if_false, List.map_cons, ih, List.mem_cons, hk, false_or]
      split <;> rfl

theorem nodup_assign {items : List (κ × β)} (h : (items.map Prod.fst).Nodup) (k : κ) (v : β) :
    ((assign k v items).map Prod.fst).Nodup := by
  rw [keys_assign]
  split
  · exact h
  · next hk =>
    refine List.nodup_append.2 ⟨h, List.nodup_singleton k, ?_⟩
    rintro a ha b hb rfl
    exact hk (List.mem_singleton.1 hb ▸ ha)

end

/-! ## Dictionaries -/

instance [DecidableEq κ] [DecidableEq β] : DecidableEq (Dict κ β) := fun c d =>
  decidable_of_iff (c.items = d.items) Dict.ext_iff.symm

/-- `{}`. -/
def empty : Dict κ β := ⟨[], List.nodup_nil⟩

def values (d : Dict κ β) : List β := d.items.map Prod.snd

section
variable [BEq κ]

def get (d : Dict κ β) (k : κ) : Option β := d.items.lookup k

def pop (d : Dict κ β) (k : κ) : Dict κ β := ⟨without k d.items, nodup_without d.nodup k⟩

/-- The dictionary after `pop`s of all these keys. -/
def popAll (d : Dict κ β) (ks : List κ) : Dict κ β := ks.foldl pop d

@[simp] theorem get_empty (k : κ) : (empty : Dict κ β).get k = none := rfl

theorem length_pop_le (d : Dict κ β) (k : κ) : (d.pop k).items.length ≤ d.items.length :=
  List.length_filter_le _ _

theorem length_popAll_le (d : Dict κ β) (ks : List κ) : (d.popAll ks).items.length ≤ d.items.length := by
  induction ks generalizing d with
  | nil => exact Nat.le_refl _
  | cons k ks ih => exact Nat.le_trans (ih (d.pop k)) (length_pop_le d k)

variable [LawfulBEq κ]

def set (d : Dict κ β) (k : κ) (v : β) : Dict κ β := ⟨assign k v d.items, nodup_assign d.nodup k v⟩

theorem length_set_le (d : Dict κ β) (k : κ) (v : β) : (d.set k v).items.length ≤ d.items.length + 1 :=
  length_assign_le k v d.items

theorem get_set (d : Dict κ β) (k j : κ) (v : β) : (d.set k v).get j = if j == k then some v else d.get j :=
  lookup_assign k j v d.items

theorem get_pop (d : Dict κ β) (k j : κ) : (d.pop k).get j = if j == k then none else d.get j :=
  lookup_without k j d.items

@[simp] theorem get_set_self (d : Dict κ β) (k : κ) (v : β) : (d.set k v).get k = some v := by simp [get_set]

@[simp] theorem get_pop_self (d : Dict κ β) (k : κ) : (d.pop k).get k = none := by simp [get_pop]

theorem get_set_ne (d : Dict κ β) {k j : κ} (h : j ≠ k) (v : β) : (d.set k v).get j = d.get j := by
  simp [get_set, h]

theorem get_pop_ne (d : Dict κ β) {k j : κ} (h : j ≠ k) : (d.pop k).get j = d.get j := by simp [get_pop, h]

/-- What a lookup finds is what stands in the dictionary. -/
theorem get_eq_some {d : Dict κ β} {k : κ} {v : β} : d.get k = some v ↔ (k, v) ∈ d.items := by
  obtain ⟨items, hnodup⟩ := d
  change items.lookup k = some v ↔ (k, v) ∈ items
  induction items with
  | nil => simp
  | cons i items ih =>
    obtain ⟨a, w⟩ := i
    obtain ⟨hnotin, hnodup⟩ := List.nodup_cons.1 hnodup
    rw [List.lookup_cons, List.mem_cons]
    cases hk : k == a with
    | false =>
      have hne : k ≠ a := ne_of_beq_false hk
      simp [hne, ih hnodup]
    | true =>
      obtain rfl := eq_of_beq hk
      have hnone : (k, v) ∉ items := fun h => hnotin (List.mem_map.2 ⟨(k, v), h, rfl⟩)
      simp [hnone, eq_comm]

theorem exists_get_of_mem_values {d : Dict κ β} {v : β} (h : v ∈ d.values) : ∃ k, d.get k = some v := by
  obtain ⟨⟨k, w⟩, hmem, rfl⟩ := List.mem_map.1 h
  exact ⟨k, get_eq_some.2 hmem⟩

theorem mem_keys_of_get {d : Dict κ β} {k : κ} {v : β} (h : d.get k = some v) : k ∈ d.items.map Prod.fst :=
  List.mem_map.2 ⟨(k, v), get_eq_some.1 h, rfl⟩

theorem notMem_keys_of_get {d : Dict κ β} {k : κ} (h : d.get k = none) : k ∉ d.items.map Prod.fst := by
  intro hk
  obtain ⟨⟨j, v⟩, hmem, rfl⟩ := List.mem_map.1 hk
  rw [get_eq_some.2 hmem] at h
  cases h

theorem length_set_of_get {d : Dict κ β} {k : κ} {w : β} (h : d.get k = some w) (v : β) :
    (d.set k v).items.length = d.items.length := by
  have hkeys := congrArg List.length (keys_assign k v d.items)
  rwa [if_pos (mem_keys_of_get h), List.length_map, List.length_map] at hkeys

theorem length_set_of_none {d : Dict κ β} {k : κ} (h : d.get k = none) (v : β) :
    (d.set k v).items.length = d.items.length + 1 := by
  have hkeys := congrArg List.length (keys_assign k v d.items)
  rwa [if_neg (notMem_keys_of_get h), List.length_append, List.length_map, List.length_map] at hkeys

theorem length_pop_of_get {d : Dict κ β} {k : κ} {v : β} (h : d.get k = some v) :
    (d.pop k).items.length + 1 = d.items.length := by
  have hkeys : (d.items.filter fun i => i.1 == k).length = 1 := by
    have hcount := List.count_eq_one_of_mem d.nodup (mem_keys_of_get h)
    rw [List.count_eq_countP, List.countP_map, List.countP_eq_length_filter] at hcount
    exact hcount
  have hsplit := List.length_eq_length_filter_add (l := d.items) fun i => i.1 == k
  rw [hsplit, hkeys, Nat.add_comm]
  rfl

theorem get_popAll_of_none {j : κ} (ks : List κ) {d : Dict κ β} (h : d.get j = none) : (d.popAll ks).get j = none := by
  induction ks generalizing d with
  | nil => exact h
  | cons k ks ih =>
    have hpop : (d.pop k).get j = none := by rw [get_pop, h, ite_self]
    exact ih hpop

theorem get_popAll_of_mem {ks : List κ} {j : κ} (h : j ∈ ks) (d : Dict κ β) : (d.popAll ks).get j = none := by
  induction ks generalizing d with
  | nil => cases h
  | cons k ks ih =>
    rcases List.mem_cons.1 h with rfl | h
    · exact get_popAll_of_none ks (get_pop_self d j)
    · exact ih h (d.pop k)

theorem get_popAll_of_notMem {ks : List κ} {j : κ} (h : j ∉ ks) (d : Dict κ β) : (d.popAll ks).get j = d.get j := by
  induction ks generalizing d with
  | nil => rfl
  | cons k ks ih =>
    rw [List.mem_cons, not_or] at h
    exact (ih h.2 (d.pop k)).trans (get_pop_ne d h.1)

theorem length_pop_lt {d : Dict κ β} {k : κ} {v : β} (h : d.get k = some v) :
    (d.pop k).items.length < d.items.length := by
  refine List.length_filter_lt_length_iff_exists.2 ⟨(k, v), get_eq_some.1 h, ?_⟩
  simp

/-- What is left after a `pop` was there. -/
theorem get_of_pop {d : Dict κ β} {k j : κ} {v : β} (h : (d.pop k).get j = some v) : d.get j = some v := by
  rw [get_pop] at h
  split at h
  · cases h
  · exact h

theorem get_of_popAll {d : Dict κ β} {ks : List κ} {j : κ} {v : β} (h : (d.popAll ks).get j = some v) :
    d.get j = some v := by
  by_cases hj : j ∈ ks
  · rw [get_popAll_of_mem hj] at h
    cases h
  · rwa [get_popAll_of_notMem hj] at h

/-- A key that stands there makes the dictionary shorter when it goes. -/
theorem length_popAll_lt {d : Dict κ β} {ks : List κ} {k : κ} {v : β} (hk : k ∈ ks) (h : d.get k = some v) :
    (d.popAll ks).items.length < d.items.length := by
  induction ks generalizing d with
  | nil => cases hk
  | cons j ks ih =>
    by_cases hj : k = j
    · subst hj
      exact Nat.lt_of_le_of_lt (length_popAll_le (d.pop k) ks) (length_pop_lt h)
    · have hk : k ∈ ks := (List.mem_cons.1 hk).resolve_left hj
      exact Nat.lt_of_lt_of_le (ih hk ((get_pop_ne d hj).trans h)) (length_pop_le d j)

/-! ## A dictionary as an index -/

section
variable {ι : Type w} {owner : β → ι} {keys : ι → κ → Prop} {d : Dict κ β}

omit [LawfulBEq κ] in
/-- Each value has an owner, and each owner's keys are those of its values. -/
def Indexes (d : Dict κ β) (owner : β → ι) (keys : ι → κ → Prop) : Prop :=
  ∀ i k, keys i k ↔ ∃ v, d.get k = some v ∧ owner v = i

omit [LawfulBEq κ] in
/-- A key has one owner. -/
theorem Indexes.unique (h : d.Indexes owner keys) {i j : ι} {k : κ} (hi : keys i k) (hj : keys j k) : i = j := by
  obtain ⟨v, hv, rfl⟩ := (h i k).1 hi
  obtain ⟨w, hw, rfl⟩ := (h j k).1 hj
  rw [Option.some.inj (hv.symm.trans hw)]

omit [LawfulBEq κ] in
theorem Indexes.congr (h : d.Indexes owner keys) {keys' : ι → κ → Prop} (hk : ∀ i k, keys' i k ↔ keys i k) :
    d.Indexes owner keys' := fun i k => (hk i k).trans (h i k)

omit [LawfulBEq κ] in
theorem Indexes.get_eq_none (h : d.Indexes owner keys) {k : κ} (hk : ∀ i, ¬ keys i k) : d.get k = none := by
  cases hget : d.get k with
  | none => rfl
  | some v => exact absurd ((h _ k).2 ⟨v, hget, rfl⟩) (hk (owner v))

theorem Indexes.pop (h : d.Indexes owner keys) (k : κ) : (d.pop k).Indexes owner fun i a => a ≠ k ∧ keys i a := by
  intro i a
  by_cases ha : a = k
  · simp [ha]
  · simp [ha, get_pop_ne d ha, h i a]

theorem Indexes.popAll (h : d.Indexes owner keys) (ks : List κ) :
    (d.popAll ks).Indexes owner fun i a => a ∉ ks ∧ keys i a := by
  intro i a
  by_cases ha : a ∈ ks
  · simp [ha, get_popAll_of_mem ha]
  · simp [ha, get_popAll_of_notMem ha, h i a]

theorem Indexes.set (h : d.Indexes owner keys) (k : κ) (v : β) :
    (d.set k v).Indexes owner fun i a => (a = k ∧ i = owner v) ∨ (a ≠ k ∧ keys i a) := by
  intro i a
  by_cases ha : a = k
  · simp [ha, eq_comm]
  · simp [ha, get_set_ne d ha, h i a]

end

end

end Dict
