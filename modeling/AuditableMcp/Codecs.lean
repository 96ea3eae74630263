import AuditableMcp.Jwks
/-!
# `encoding.py`: each decoder admits one spelling of a byte string

Both decoders end with the round trip, so what decodes is what its bytes encode to. That every byte string is
read back from its encoding is the other half: the letters stand for their own bits, the groups of six bits give the
bytes back, and the padding is what the length asks for.
-/
namespace AuditableMcp

open JsonValue

/-- A Python `bytes`. -/
def ByteString : Type := {raw : Bytes // IsBytes raw}

theorem spelled_standard : Spelled '+' '/' := by
  unfold Spelled
  decide

theorem sextet_lt {p q : Char} {n b : Nat} (h : sextet p q n = some b) : b < 64 := by
  have hA : 'A'.toNat = 65 := rfl
  have hZ : 'Z'.toNat = 90 := rfl
  have ha : 'a'.toNat = 97 := rfl
  have hz : 'z'.toNat = 122 := rfl
  have h0 : '0'.toNat = 48 := rfl
  have h9 : '9'.toNat = 57 := rfl
  unfold sextet at h
  split at h
  · cases h
    omega
  split at h
  · cases h
    omega
  split at h
  · cases h
    omega
  split at h
  · cases h
    omega
  split at h
  · cases h
    omega
  · cases h

theorem mapM_sextet_lt {p q : Char} : ∀ {s : Str} {bits : List Nat}, s.mapM (sextet p q) = some bits → ∀ b ∈ bits, b < 64
  | [], bits, h => by
    cases h
    rintro _ ⟨⟩
  | n :: s, bits, h => by
    rw [List.mapM_cons] at h
    obtain ⟨first, hfirst, h⟩ := Option.bind_eq_some_iff.1 h
    obtain ⟨others, hothers, h⟩ := Option.bind_eq_some_iff.1 h
    cases h
    intro b hb
    rcases List.mem_cons.1 hb with rfl | hb
    · exact sextet_lt hfirst
    · exact mapM_sextet_lt hothers b hb

theorem isBytes_ofSextets {bits : List Nat} (h : ∀ b ∈ bits, b < 64) : IsBytes (ofSextets bits) := by
  fun_induction ofSextets bits with
  | case1 a b c d rest ih =>
    have ha := h a (by simp)
    have hb := h b (by simp)
    have hc := h c (by simp)
    have hd := h d (by simp)
    intro x hx
    simp only [List.mem_cons] at hx
    rcases hx with rfl | rfl | rfl | hx
    · omega
    · omega
    · omega
    · exact ih (fun y hy => h y (by simp [hy])) x hx
  | case2 a b c =>
    have ha := h a (by simp)
    have hb := h b (by simp)
    have hc := h c (by simp)
    intro x hx
    simp only [List.mem_cons, List.not_mem_nil, or_false] at hx
    omega
  | case3 a b =>
    have ha := h a (by simp)
    have hb := h b (by simp)
    intro x hx
    obtain rfl := List.mem_singleton.1 hx
    omega
  | case4 => rintro _ ⟨⟩
  | case5 => rintro _ ⟨⟩

/-! ## base64url -/

/-- A value decodes to what encodes to it. -/
theorem b64urlDecode_sound {v : Json} {raw : Bytes} (h : b64urlDecode v = some raw) :
    IsBytes raw ∧ v = .str (b64urlEncode raw) := by
  cases v with
  | str s =>
    obtain ⟨bits, hbits, h⟩ := Option.bind_eq_some_iff.1 h
    split at h
    · cases h
    · split at h
      · next heq =>
        cases h
        exact ⟨isBytes_ofSextets (mapM_sextet_lt hbits), by rw [heq]⟩
      · cases h
  | _ => cases h

theorem b64urlDecode_eq_some_iff {v : Json} {raw : Bytes} (h : IsBytes raw) :
    b64urlDecode v = some raw ↔ v = .str (b64urlEncode raw) := by
  constructor
  · exact fun hv => (b64urlDecode_sound hv).2
  · rintro rfl
    exact b64urlDecode_encode h

theorem letter_ascii (n : Nat) : letter '-' '_' n < 128 := by
  have hA : 'A'.toNat = 65 := rfl
  have ha : 'a'.toNat = 97 := rfl
  have h0 : '0'.toNat = 48 := rfl
  have hd : '-'.toNat = 45 := rfl
  have hu : '_'.toNat = 95 := rfl
  unfold letter
  split
  · omega
  split
  · omega
  split
  · omega
  split
  · omega
  · omega

theorem b64urlEncode_ascii (raw : Bytes) : (b64urlEncode raw).all (· < 128) = true := by
  rw [List.all_eq_true]
  intro c hc
  obtain ⟨n, -, rfl⟩ := List.mem_map.1 hc
  simpa using letter_ascii n

theorem b64urlEncode_inj {x y : Bytes} (hx : IsBytes x) (hy : IsBytes y) (h : b64urlEncode x = b64urlEncode y) : x = y := by
  have hread := b64urlDecode_encode hx
  rw [h, b64urlDecode_encode hy] at hread
  exact (Option.some.inj hread).symm

/-! ## Padded base64 -/

theorem letter_ne_padding (n : Nat) : letter '+' '/' n ≠ '='.toNat := by
  have hA : 'A'.toNat = 65 := rfl
  have ha : 'a'.toNat = 97 := rfl
  have h0 : '0'.toNat = 48 := rfl
  have hp : '+'.toNat = 43 := rfl
  have hs : '/'.toNat = 47 := rfl
  have he : '='.toNat = 61 := rfl
  unfold letter
  split
  · omega
  split
  · omega
  split
  · omega
  split
  · omega
  · omega

/-- A text without its paddings. -/
theorem strip_padding {body : Str} (h : ∀ c ∈ body, c ≠ '='.toNat) (k : Nat) :
    ((body ++ List.replicate k '='.toNat).reverse.dropWhile (· = '='.toNat)).reverse = body := by
  have hbody : body.reverse.dropWhile (· = '='.toNat) = body.reverse := by
    cases hr : body.reverse with
    | nil => rfl
    | cons c rest =>
      have hc : c ∈ body := List.mem_reverse.1 (hr ▸ List.mem_cons_self)
      exact List.dropWhile_cons_of_neg (by simpa using h c hc)
  have hpads : ∀ k, (List.replicate k '='.toNat ++ body.reverse).dropWhile (· = '='.toNat) = body.reverse := by
    intro k
    induction k with
    | zero => exact hbody
    | succ k ih => simpa [List.replicate_succ] using ih
  rw [List.reverse_append, List.reverse_replicate, hpads, List.reverse_reverse]

/-- The letters of an encoding, and the paddings that bring it to fours. -/
theorem toSextets_padded (raw : Bytes) : ((toSextets raw).length + (3 - raw.length % 3) % 3) % 4 = 0 := by
  fun_induction toSextets raw with
  | case1 a b c rest ih =>
    simp only [List.length_cons] at ih ⊢
    omega
  | case2 a b => simp
  | case3 a => simp
  | case4 => simp

theorem toSextets_eq_nil {raw : Bytes} : toSextets raw = [] ↔ raw = [] := by
  fun_cases toSextets raw <;> simp

/-- What `b64encode` writes of a byte string that is not empty, `b64_standard_decode` reads. -/
theorem b64StandardDecode_encode {raw : Bytes} (h : IsBytes raw) (hne : raw ≠ []) :
    b64StandardDecode (.str (b64StandardEncode raw)) = some raw := by
  have hbits := mapM_sextet_letter spelled_standard (toSextets_lt h)
  have hstrip : ((b64StandardEncode raw).reverse.dropWhile (· = '='.toNat)).reverse = (toSextets raw).map (letter '+' '/') := by
    refine strip_padding (fun c hc => ?_) _
    obtain ⟨n, -, rfl⟩ := List.mem_map.1 hc
    exact letter_ne_padding n
  have hlen : (b64StandardEncode raw).length = (toSextets raw).length + (3 - raw.length % 3) % 3 := by
    simp [b64StandardEncode]
  have hguard : ¬ ((toSextets raw).map (letter '+' '/') = [] ∨
      2 < (b64StandardEncode raw).length - ((toSextets raw).map (letter '+' '/')).length ∨ (b64StandardEncode raw).length % 4 ≠ 0) := by
    have hpadded := toSextets_padded raw
    rw [List.map_eq_nil_iff, toSextets_eq_nil, List.length_map, hlen]
    rintro (hnil | hpads | hfours)
    · exact hne hnil
    · omega
    · exact hfours hpadded
  simp only [b64StandardDecode, hstrip, hbits, Option.bind_eq_bind, Option.bind_some, if_neg hguard, ofSextets_toSextets h,
    if_pos trivial]

theorem b64StandardDecode_sound {v : Json} {raw : Bytes} (h : b64StandardDecode v = some raw) :
    IsBytes raw ∧ raw ≠ [] ∧ v = .str (b64StandardEncode raw) := by
  cases v with
  | str s =>
    obtain ⟨bits, hbits, h⟩ := Option.bind_eq_some_iff.1 h
    split at h
    · cases h
    · next hguard =>
      split at h
      · next heq =>
        cases h
        refine ⟨isBytes_ofSextets (mapM_sextet_lt hbits), fun hnil => hguard (.inl ?_), by rw [heq]⟩
        rw [hnil] at heq
        rw [← heq]
        rfl
      · cases h
  | _ => cases h

/-! ## Both codecs -/

/-- A base64url text reads back as the one byte string it is the encoding of, a padded one as the one that is not
empty; no other value reads as anything. -/
theorem codecs_exact : (∀ raw : ByteString, b64urlDecode (.str (b64urlEncode raw.1)) = some raw.1) ∧
    (∀ (v : Json) (raw : ByteString), b64urlDecode v = some raw.1 ↔ v = .str (b64urlEncode raw.1)) ∧
    (∀ v : Json, b64urlDecode v = none ↔ ¬ ∃ raw : ByteString, v = .str (b64urlEncode raw.1)) ∧
    (∀ (v : Json) (raw : ByteString), b64StandardDecode v = some raw.1 ↔ raw.1 ≠ [] ∧ v = .str (b64StandardEncode raw.1)) ∧
    (∀ v : Json, b64StandardDecode v = none ↔ ¬ ∃ raw : ByteString, raw.1 ≠ [] ∧ v = .str (b64StandardEncode raw.1)) := by
  refine ⟨fun raw => b64urlDecode_encode raw.2, fun v raw => b64urlDecode_eq_some_iff raw.2, fun v => ⟨?_, fun hv => ?_⟩,
    fun v raw => ⟨fun h => (b64StandardDecode_sound h).2, ?_⟩, fun v => ⟨?_, fun hv => ?_⟩⟩
  · rintro h ⟨raw, rfl⟩
    rw [b64urlDecode_encode raw.2] at h
    cases h
  · by_contra h
    obtain ⟨raw, hraw⟩ := Option.ne_none_iff_exists'.1 h
    obtain ⟨hbytes, heq⟩ := b64urlDecode_sound hraw
    exact hv ⟨⟨raw, hbytes⟩, heq⟩
  · rintro ⟨hne, rfl⟩
    exact b64StandardDecode_encode raw.2 hne
  · rintro h ⟨raw, hne, rfl⟩
    rw [b64StandardDecode_encode raw.2 hne] at h
    cases h
  · by_contra h
    obtain ⟨raw, hraw⟩ := Option.ne_none_iff_exists'.1 h
    obtain ⟨hbytes, hne, heq⟩ := b64StandardDecode_sound hraw
    exact hv ⟨⟨raw, hbytes⟩, hne, heq⟩

end AuditableMcp
