import AuditableMcp.Reference
/-!
# What canonicalization cannot tell apart, validation cannot

A canonical form is one of a JSON value: of its members in any order, of its numbers however they are written. The models
of `models.py` read an event as it was received, so that they agree on all the encodings of a value is theirs to keep:
`_integral` (`models.py:80-90`) is there for it. Every check of theirs is one of the value (`OfValue`), so the events of
one canonical form are valid together (`validation_canonical`), whatever version they are of.
-/
namespace AuditableMcp

open JsonValue

/-! ## Checks of a value -/

/-- A check that the normal form of a value passes where the value does. -/
def OfValue (p : Json → Bool) : Prop := ∀ v, p (normForm v) = p v

/-- A check no value but a text passes. -/
theorem ofValue_of_text {p : Json → Bool} (h : ∀ v, (∀ s, v ≠ .str s) → p v = false) : OfValue p := by
  intro v
  by_cases hv : ∃ s, v = .str s
  · obtain ⟨s, rfl⟩ := hv
    rfl
  · rw [h v fun s hs => hv ⟨s, hs⟩, h]
    intro s hs
    exact hv ⟨s, normForm_eq_str.1 hs⟩

theorem ofValue_isPattern (r : Regex.Re) : OfValue (isPattern r) := ofValue_of_text fun v h => by
  cases v with
  | str s => exact absurd rfl (h s)
  | _ => rfl

theorem ofValue_isText : OfValue isText := ofValue_of_text fun v h => by
  cases v with
  | str s => exact absurd rfl (h s)
  | _ => rfl

theorem ofValue_isNonEmpty : OfValue isNonEmpty := ofValue_of_text fun v h => by
  cases v with
  | str s => exact absurd rfl (h s)
  | _ => rfl

theorem ofValue_isOneOf (ts : List Str) : OfValue (isOneOf ts) := ofValue_of_text fun v h => by
  cases v with
  | str s => exact absurd rfl (h s)
  | _ => rfl

/-- A number with a fractional part is in normal form, and one without is an integer there. -/
theorem normForm_fin (q : Rat) : normForm (.float (.fin q)) = if q.den = 1 then .int q.num else .float (.fin q) := rfl

theorem ofValue_isBool : OfValue isBool := by
  intro v
  match v with
  | .float (.fin q) => rw [normForm_fin]; split <;> rfl
  | .null | .bool _ | .int _ | .float .nan | .float (.inf _) | .str _ | .arr _ | .obj _ => rfl

theorem ofValue_isObject : OfValue isObject := by
  intro v
  match v with
  | .float (.fin q) => rw [normForm_fin]; split <;> rfl
  | .null | .bool _ | .int _ | .float .nan | .float (.inf _) | .str _ | .arr _ | .obj _ => rfl

/-- `1.0` is a count as `1` is. -/
theorem ofValue_isCount : OfValue isCount := by
  intro v
  match v with
  | .float (.fin q) =>
    rw [normForm_fin]
    split
    · next hq => simp only [isCount, hq, decide_true, Bool.true_and]
    · rfl
  | .null | .bool _ | .int _ | .float .nan | .float (.inf _) | .str _ | .arr _ | .obj _ => rfl

/-! ## Objects -/

section

variable {ms : Members}

/-- The members of a normal form. -/
def ordered (ms : Members) : Members := sortMembers (normMembers ms)

theorem get_ordered (k : Str) : get (ordered ms) k = (get ms k).map normForm := by
  rw [ordered, get_sortMembers, get_normMembers]

theorem required_ordered {p : Json → Bool} (hp : OfValue p) (k : Str) : required (ordered ms) k p = required ms k p := by
  unfold required
  rw [get_ordered]
  cases get ms k with
  | none => rfl
  | some v => exact hp v

theorem optional_ordered {p : Json → Bool} (hp : OfValue p) (k : Str) : optional (ordered ms) k p = optional ms k p := by
  unfold optional
  rw [get_ordered]
  cases get ms k with
  | none => rfl
  | some v => exact hp v

theorem has_ordered (k : Str) : has (ordered ms) k = has ms k := by
  rw [has, get_ordered, Option.isSome_map]
  rfl

theorem get_ordered_str (k s : Str) : get (ordered ms) k = some (.str s) ↔ get ms k = some (.str s) := by
  rw [get_ordered, Option.map_eq_some_iff]
  constructor
  · rintro ⟨v, hv, hs⟩
    rw [hv, normForm_eq_str.1 hs]
  · exact fun h => ⟨_, h, rfl⟩

theorem hasText_ordered (k s : Str) : hasText (ordered ms) k s = hasText ms k s := by
  rw [Bool.eq_iff_iff, hasText_iff, hasText_iff, get_ordered_str]

theorem closed_ordered (ms : Members) (names : List Str) : closed (ordered ms) names = closed ms names := by
  have hnames : (normMembers ms).map Prod.fst = ms.map Prod.fst := by
    induction ms with
    | nil => rfl
    | cons m ms ih =>
      obtain ⟨k, v⟩ := m
      simp only [normMembers, List.map_cons, ih]
  have hperm : ((ordered ms).map Prod.fst).Perm (ms.map Prod.fst) :=
    hnames ▸ (List.perm_insertionSort _ (normMembers ms)).map Prod.fst
  have hall : ∀ ms : Members, closed ms names = (ms.map Prod.fst).all names.contains := fun ms => by
    rw [closed, List.all_map]
    rfl
  rw [hall, hall, Bool.eq_iff_iff, List.all_eq_true, List.all_eq_true]
  exact ⟨fun h k hk => h k (hperm.mem_iff.2 hk), fun h k hk => h k (hperm.mem_iff.1 hk)⟩

end

theorem ofValue_isTargetResource : OfValue isTargetResource := by
  intro v
  match v with
  | .float (.fin q) => rw [normForm_fin]; split <;> rfl
  | .obj ms =>
    change isTargetResource (.obj (ordered ms)) = _
    simp only [isTargetResource, closed_ordered, required_ordered ofValue_isNonEmpty, optional_ordered ofValue_isText]
  | .null | .bool _ | .int _ | .float .nan | .float (.inf _) | .str _ | .arr _ => rfl

/-! ## Models -/

section

variable {W : World} {ms : Members}

theorem describesOperation_ordered : describesOperation (ordered ms) = describesOperation ms := by
  simp only [describesOperation, required_ordered ofValue_isNonEmpty, required_ordered ofValue_isBool,
    required_ordered ofValue_isTargetResource, required_ordered (ofValue_isOneOf _), optional_ordered ofValue_isText,
    optional_ordered ofValue_isObject, optional_ordered (ofValue_isPattern _)]

theorem reasonWhenAborted_ordered : reasonWhenAborted (ordered ms) = reasonWhenAborted ms := by
  simp only [reasonWhenAborted, hasText_ordered, has_ordered]

theorem sessionFields_ordered : sessionFields (ordered ms) = sessionFields ms := by
  simp only [sessionFields, describesOperation_ordered, reasonWhenAborted_ordered, level2Together, has_ordered,
    required_ordered (ofValue_isPattern _), optional_ordered (ofValue_isOneOf _), optional_ordered ofValue_isCount,
    optional_ordered ofValue_isNonEmpty, optional_ordered (ofValue_isPattern _)]

/-- Equal objects have one normal form. -/
theorem ordered_eq {ns : Members} (h : JsonEq (.obj ms) (.obj ns)) : ordered ms = ordered ns := Json.obj.inj h

/-- A model whose checks are of values admits all encodings of a value, or none. -/
theorem isModel_congr {names : List Str} {p : Members → Bool} (hp : ∀ ms, p (ordered ms) = p ms) {v w : Json}
    (h : JsonEq v w) (hv : hasLoneSurrogate v = false) (hw : hasLoneSurrogate w = false) :
    isModel names p v = isModel names p w := by
  have hother : ∀ {v w : Json}, JsonEq v w → (∀ ms, v ≠ .obj ms) → isModel names p w = false := by
    intro v w h hno
    cases w with
    | obj ns =>
      obtain ⟨ms, rfl⟩ := eq_obj_of_normForm (m := ordered ns) h
      exact absurd rfl (hno ms)
    | _ => rfl
  by_cases hobj : ∃ ms, v = .obj ms
  · obtain ⟨ms, rfl⟩ := hobj
    obtain ⟨ns, rfl⟩ := eq_obj_of_normForm (m := ordered ms) h.symm
    simp only [isModel, hv, hw, ← closed_ordered ms, ← closed_ordered ns, ← hp ms, ← hp ns, ordered_eq h]
  · have hno : ∀ ms, v ≠ .obj ms := fun ms hms => hobj ⟨ms, hms⟩
    rw [hother h hno, hother (JsonEq.refl v) hno]

theorem validAuditEvent_congr {v w : Json} (h : JsonEq v w) (hv : hasLoneSurrogate v = false)
    (hw : hasLoneSurrogate w = false) : validAuditEvent W v = validAuditEvent W w := by
  refine isModel_congr (fun ms => ?_) h hv hw
  simp only [sessionFields_ordered, required_ordered (ofValue_isOneOf _), required_ordered (ofValue_isPattern _),
    optional_ordered (ofValue_isPattern _)]

theorem validSealedV03_congr {v w : Json} (h : JsonEq v w) (hv : hasLoneSurrogate v = false)
    (hw : hasLoneSurrogate w = false) : validSealedV03 W v = validSealedV03 W w := by
  refine isModel_congr (fun ms => ?_) h hv hw
  simp only [sessionFields_ordered, required_ordered (ofValue_isOneOf _), required_ordered (ofValue_isPattern _)]

theorem validEarlierSealed_congr {v w : Json} (h : JsonEq v w) (hv : hasLoneSurrogate v = false)
    (hw : hasLoneSurrogate w = false) : validEarlierSealed W v = validEarlierSealed W w := by
  refine isModel_congr (fun ms => ?_) h hv hw
  simp only [describesOperation_ordered, reasonWhenAborted_ordered, required_ordered (ofValue_isOneOf _),
    required_ordered (ofValue_isPattern _), required_ordered ofValue_isNonEmpty, optional_ordered (ofValue_isOneOf _),
    optional_ordered ofValue_isCount, optional_ordered ofValue_isNonEmpty, optional_ordered (ofValue_isPattern _)]

theorem validSealedV01_congr {v w : Json} (h : JsonEq v w) (hv : hasLoneSurrogate v = false)
    (hw : hasLoneSurrogate w = false) : validSealedV01 W v = validSealedV01 W w := by
  refine isModel_congr (fun ms => ?_) h hv hw
  simp only [describesOperation_ordered, required_ordered (ofValue_isOneOf _), required_ordered (ofValue_isPattern _),
    required_ordered ofValue_isNonEmpty, optional_ordered ofValue_isCount, optional_ordered ofValue_isText]

/-- What is no object is refused. -/
theorem firstSealedValidationError_other {v : Json} (h : ∀ ms, v ≠ .obj ms) : firstSealedValidationError W v ≠ none := by
  cases v with
  | obj ms => exact absurd rfl (h ms)
  | _ => simp [firstSealedValidationError, firstError, validAuditEvent, isModel]

theorem firstSealedValidationError_congr {v w : Json} (h : JsonEq v w) (hv : hasLoneSurrogate v = false)
    (hw : hasLoneSurrogate w = false) :
    firstSealedValidationError W v = none ↔ firstSealedValidationError W w = none := by
  by_cases hobj : ∃ ms, v = .obj ms
  · obtain ⟨ms, rfl⟩ := hobj
    obtain ⟨ns, rfl⟩ := eq_obj_of_normForm (m := ordered ms) h.symm
    have his : ∀ s, get ms SPEC_VERSION_KEY = some (.str s) ↔ get ns SPEC_VERSION_KEY = some (.str s) := fun s => by
      rw [← get_ordered_str, ordered_eq h, get_ordered_str]
    simp only [firstSealedValidationError, his]
    split_ifs
    · rw [firstError_eq_none, firstError_eq_none, validSealedV01_congr h hv hw]
    · rw [firstError_eq_none, firstError_eq_none, validSealedV03_congr h hv hw]
    · rw [firstError_eq_none, firstError_eq_none, validEarlierSealed_congr h hv hw]
    · rw [firstError_eq_none, firstError_eq_none, validAuditEvent_congr h hv hw]
  · have hno : ∀ ms, v ≠ .obj ms := fun ms hms => hobj ⟨ms, hms⟩
    have hno' : ∀ ns, w ≠ .obj ns := by
      rintro ns rfl
      obtain ⟨ms, hms⟩ := eq_obj_of_normForm (m := ordered ns) h
      exact hno ms hms
    exact iff_of_false (firstSealedValidationError_other hno) (firstSealedValidationError_other hno')

/-- **Validation is of the value.** Values of one canonical form are valid together, as events now and as sealed ones of
whatever version. -/
theorem validation_canonical (hj : JcsSpec W.dumps InDomain) {v w : Json} {text : Str}
    (hv : canonicalize W v = .ok text) (hw : canonicalize W w = .ok text) :
    (firstValidationError W v = none ↔ firstValidationError W w = none) ∧
      (firstSealedValidationError W v = none ↔ firstSealedValidationError W w = none) := by
  obtain ⟨hdom, rfl⟩ := canonicalize_eq_ok.1 hv
  obtain ⟨hdom', htext⟩ := canonicalize_eq_ok.1 hw
  have heq : JsonEq v w := (hj.eq_iff _ _ hdom hdom').1 htext
  simp only [InDomain, outsideCanonicalDomain, Bool.or_eq_false_iff] at hdom hdom'
  constructor
  · rw [firstValidationError, firstValidationError, firstError_eq_none, firstError_eq_none,
      validAuditEvent_congr heq hdom.2 hdom'.2]
  · exact firstSealedValidationError_congr heq hdom.2 hdom'.2

end

/-- The sample attempt signed, its number written `0.0` and its members backwards. -/
def rewrittenAttempt : Event :=
  (signedAttempt.map fun m => if m.1 = SIGNER_SEQ then (m.1, .float (.fin 0)) else m).reverse

theorem validation_canonical_sample :
    (firstValidationError reference (.obj signedAttempt) = none ↔
        firstValidationError reference (.obj rewrittenAttempt) = none) ∧
      (firstSealedValidationError reference (.obj signedAttempt) = none ↔
        firstSealedValidationError reference (.obj rewrittenAttempt) = none) :=
  validation_canonical reference_jcs (canonicalize_ok (by decide))
    (canonicalize_eq_ok.2 ⟨by decide +kernel, by decide +kernel⟩)

end AuditableMcp
