import Mathlib.Data.List.Basic
/-!
# UTF-8

A text is the list of its code points, and a byte a number below 256. Only the scalar values have an encoding; the
decoder is strict, so a surrogate, a longer form than a character needs and a lone byte are refused.
-/
namespace Utf8

/-- A code point that is no surrogate. -/
def isScalar (c : Nat) : Bool := c < 0xD800 || (0xE000 ≤ c && c < 0x110000)

def encodeChar (c : Nat) : List Nat :=
  if c < 0x80 then [c]
  else if c < 0x800 then [0xC0 + c / 64, 0x80 + c % 64]
  else if c < 0x10000 then [0xE0 + c / 4096, 0x80 + c / 64 % 64, 0x80 + c % 64]
  else [0xF0 + c / 262144, 0x80 + c / 4096 % 64, 0x80 + c / 64 % 64, 0x80 + c % 64]

/-- The bytes of a text; none for a surrogate in it. -/
def encode (s : List Nat) : Option (List Nat) := if s.all isScalar then some (s.flatMap encodeChar) else none

def isTail (b : Nat) : Bool := 0x80 ≤ b && b < 0xC0

def two (a b : Nat) : Option Nat :=
  let c := (a - 0xC0) * 64 + (b - 0x80)
  if 0xC0 ≤ a && a < 0xE0 && isTail b && 0x80 ≤ c then some c else none

def three (a b₁ b₂ : Nat) : Option Nat :=
  let c := (a - 0xE0) * 4096 + (b₁ - 0x80) * 64 + (b₂ - 0x80)
  if 0xE0 ≤ a && a < 0xF0 && isTail b₁ && isTail b₂ && 0x800 ≤ c && isScalar c then some c else none

def four (a b₁ b₂ b₃ : Nat) : Option Nat :=
  let c := (a - 0xF0) * 262144 + (b₁ - 0x80) * 4096 + (b₂ - 0x80) * 64 + (b₃ - 0x80)
  if 0xF0 ≤ a && a < 0xF8 && isTail b₁ && isTail b₂ && isTail b₃ && 0x10000 ≤ c && isScalar c then some c else none

/-- The text of bytes. -/
def decode : List Nat → Option (List Nat)
  | [] => some []
  | a :: rest =>
    if a < 0x80 then (decode rest).map (a :: ·)
    else match rest with
      | [] => none
      | b₁ :: rest =>
        match two a b₁ with
        | some c => (decode rest).map (c :: ·)
        | none =>
          match rest with
          | [] => none
          | b₂ :: rest =>
            match three a b₁ b₂ with
            | some c => (decode rest).map (c :: ·)
            | none =>
              match rest with
              | [] => none
              | b₃ :: rest => (four a b₁ b₂ b₃).bind fun c => (decode rest).map (c :: ·)

theorem encodeChar_lt {c : Nat} (h : isScalar c = true) : ∀ b ∈ encodeChar c, b < 256 := by
  have hc : c < 0x110000 := by
    simp only [isScalar, Bool.or_eq_true, Bool.and_eq_true, decide_eq_true_eq] at h
    omega
  unfold encodeChar
  split
  · simp
    omega
  split
  · simp
    omega
  split
  · simp
    omega
  · simp
    omega

theorem encode_lt {s bytes : List Nat} (h : encode s = some bytes) : ∀ b ∈ bytes, b < 256 := by
  unfold encode at h
  split at h
  · next hall =>
    cases h
    intro b hb
    obtain ⟨c, hc, hb⟩ := List.mem_flatMap.1 hb
    exact encodeChar_lt (List.all_eq_true.1 hall c hc) b hb
  · cases h

/-- One character is read back, whatever follows it. -/
theorem decode_encodeChar {c : Nat} (h : isScalar c = true) (rest : List Nat) :
    decode (encodeChar c ++ rest) = (decode rest).map (c :: ·) := by
  have hscalar := h
  simp only [isScalar, Bool.or_eq_true, Bool.and_eq_true, decide_eq_true_eq] at h
  unfold encodeChar
  split
  · next h1 =>
    rw [List.singleton_append, decode.eq_def]
    exact if_pos h1
  split
  · next h1 h2 =>
    have hlead : ¬ 0xC0 + c / 64 < 0x80 := by omega
    have htwo : two (0xC0 + c / 64) (0x80 + c % 64) = some c := by
      have hval : (0xC0 + c / 64 - 0xC0) * 64 + (0x80 + c % 64 - 0x80) = c := by omega
      simp only [two, isTail, hval, Bool.and_eq_true, decide_eq_true_eq, Option.ite_none_right_eq_some, and_true]
      omega
    rw [List.cons_append, decode.eq_def]
    simp only [if_neg hlead, List.cons_append, List.nil_append, htwo]
  split
  · next h1 h2 h3 =>
    have hlead : ¬ 0xE0 + c / 4096 < 0x80 := by omega
    have htwo : two (0xE0 + c / 4096) (0x80 + c / 64 % 64) = none := by
      simp only [two, Bool.and_eq_true, decide_eq_true_eq, ite_eq_right_iff]
      omega
    have hthree : three (0xE0 + c / 4096) (0x80 + c / 64 % 64) (0x80 + c % 64) = some c := by
      have hval : (0xE0 + c / 4096 - 0xE0) * 4096 + (0x80 + c / 64 % 64 - 0x80) * 64 + (0x80 + c % 64 - 0x80) = c := by omega
      simp only [three, isTail, hval, hscalar, Bool.and_eq_true, decide_eq_true_eq, Option.ite_none_right_eq_some, and_true]
      omega
    rw [List.cons_append, decode.eq_def]
    simp only [if_neg hlead, List.cons_append, List.nil_append, htwo, hthree]
  · next h1 h2 h3 =>
    have hlead : ¬ 0xF0 + c / 262144 < 0x80 := by omega
    have htwo : two (0xF0 + c / 262144) (0x80 + c / 4096 % 64) = none := by
      simp only [two, Bool.and_eq_true, decide_eq_true_eq, ite_eq_right_iff]
      omega
    have hthree : three (0xF0 + c / 262144) (0x80 + c / 4096 % 64) (0x80 + c / 64 % 64) = none := by
      simp only [three, Bool.and_eq_true, decide_eq_true_eq, ite_eq_right_iff]
      omega
    have hfour : four (0xF0 + c / 262144) (0x80 + c / 4096 % 64) (0x80 + c / 64 % 64) (0x80 + c % 64) = some c := by
      have hval : (0xF0 + c / 262144 - 0xF0) * 262144 + (0x80 + c / 4096 % 64 - 0x80) * 4096 +
          (0x80 + c / 64 % 64 - 0x80) * 64 + (0x80 + c % 64 - 0x80) = c := by omega
      simp only [four, isTail, hval, hscalar, Bool.and_eq_true, decide_eq_true_eq, Option.ite_none_right_eq_some, and_true]
      omega
    rw [List.cons_append, decode.eq_def]
    simp only [if_neg hlead, List.cons_append, List.nil_append, htwo, hthree, hfour, Option.bind_some]

/-- What is encoded is read back. -/
theorem decode_encode {s bytes : List Nat} (h : encode s = some bytes) : decode bytes = some s := by
  unfold encode at h
  split at h
  · next hall =>
    cases h
    induction s with
    | nil => rfl
    | cons c s ih =>
      rw [List.all_cons, Bool.and_eq_true] at hall
      rw [List.flatMap_cons, decode_encodeChar hall.1, ih hall.2]
      rfl
  · cases h

/-- Below 128 a text is its bytes. -/
theorem encode_ascii {s : List Nat} (h : ∀ c ∈ s, c < 0x80) : encode s = some s := by
  have hall : s.all isScalar = true := List.all_eq_true.2 fun c hc => by
    have hlt := h c hc
    simp only [isScalar, Bool.or_eq_true, decide_eq_true_eq]
    omega
  have hflat : s.flatMap encodeChar = s := by
    induction s with
    | nil => rfl
    | cons c s ih =>
      have hrest : s.all isScalar = true := by
        rw [List.all_cons, Bool.and_eq_true] at hall
        exact hall.2
      rw [List.flatMap_cons, ih (fun d hd => h d (List.mem_cons_of_mem c hd)) hrest]
      simp [encodeChar, h c List.mem_cons_self]
  rw [encode, if_pos hall, hflat]

end Utf8
