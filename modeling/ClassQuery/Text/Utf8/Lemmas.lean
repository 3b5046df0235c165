import ClassQuery.Text.Utf8

/-!
Laws of the UTF-8 form.

Texts are read back from their bytes. Inside a character no byte of ASCII is expected, so one that
comes there ends the character as a fault, just as the end of the bytes does; what stands before a
byte of ASCII and what stands behind it are therefore read apart. A place between two bytes may lie
inside a character. There nothing can be cut, and it shows in the byte at the place, which goes on
with a character instead of beginning one.
-/

set_option autoImplicit false
set_option relaxedAutoImplicit false

/-! ### Bytes on both sides of a byte of ASCII -/

namespace ClassQuery.Utf8

namespace Decoder

/-- Whether no byte of ASCII goes on with the character that is open. -/
private def Guarded (d : Decoder) : Prop := ∀ p, d.pending = some p → 0x80 ≤ p.low

private theorem low_of_opening {b : Nat} {p : Pending} (opens : opening b = .partly p) :
    0x80 ≤ p.low := by
  unfold opening at opens
  repeat' split at opens
  all_goals cases opens
  all_goals simp

private theorem guarded_begin (d : Decoder) (b : Nat) : (d.begin b).Guarded := by
  intro p pending
  unfold begin at pending
  split at pending
  · cases pending
  · next opens =>
    cases pending
    exact low_of_opening opens
  · cases pending

private theorem Guarded.feed {d : Decoder} (b : UInt8) : (d.feed b).Guarded := by
  unfold Decoder.feed
  split
  · exact guarded_begin d b.toNat
  · split
    · intro q pending
      simp only at pending
      split at pending <;> cases pending
      exact Nat.le_refl _
    · exact guarded_begin _ b.toNat

private theorem guarded_foldl_feed (bytes : Bytes) : (bytes.foldl Decoder.feed .start).Guarded := by
  rcases List.eq_nil_or_concat bytes with rfl | ⟨front, b, rfl⟩
  · intro p pending
    cases pending
  · rw [List.concat_eq_append, List.foldl_append]
    exact Guarded.feed b

/-- A byte of ASCII is read as its character, behind all that was read before. -/
private theorem Guarded.feed_eq {d : Decoder} (guarded : d.Guarded) {b : UInt8}
    (low : b.toNat < 0x80) :
    d.feed b = ⟨some (Char.ofNat b.toNat) :: d.finish.reverse, none⟩ := by
  obtain ⟨units, pending⟩ := d
  have whole : opening b.toNat = .whole (Char.ofNat b.toNat) := if_pos low
  cases pending with
  | none => simp [Decoder.feed, begin, whole, finish]
  | some p =>
    have outside : ¬ (p.low ≤ b.toNat ∧ b.toNat ≤ p.high) := by
      have owed := guarded p rfl
      omega
    simp [Decoder.feed, outside, begin, whole, finish]

theorem begin_append (us vs : List (Option Char)) (pending : Option Pending) (b : Nat) :
    begin ⟨us ++ vs, pending⟩ b =
      ⟨(begin ⟨us, pending⟩ b).units ++ vs, (begin ⟨us, pending⟩ b).pending⟩ := by
  unfold begin
  cases opening b <;> rfl

private theorem feed_append (us vs : List (Option Char)) (pending : Option Pending) (b : UInt8) :
    feed ⟨us ++ vs, pending⟩ b =
      ⟨(feed ⟨us, pending⟩ b).units ++ vs, (feed ⟨us, pending⟩ b).pending⟩ := by
  cases pending with
  | none => exact begin_append us vs none b.toNat
  | some p =>
    by_cases inside : p.low ≤ b.toNat ∧ b.toNat ≤ p.high
    · by_cases last : p.owed ≤ 1 <;> simp [feed, inside, last]
    · simpa [feed, inside] using begin_append (none :: us) vs none b.toNat

/-- What was read before stays as it is and has no effect on what is read. -/
theorem foldl_feed_append (us vs : List (Option Char)) (pending : Option Pending)
    (bytes : Bytes) :
    bytes.foldl feed ⟨us ++ vs, pending⟩ =
      ⟨(bytes.foldl feed ⟨us, pending⟩).units ++ vs, (bytes.foldl feed ⟨us, pending⟩).pending⟩ := by
  induction bytes generalizing us pending with
  | nil => rfl
  | cons b bytes ih =>
    rw [List.foldl_cons, List.foldl_cons, feed_append]
    exact ih _ _

private theorem finish_append (d : Decoder) (vs : List (Option Char)) :
    finish ⟨d.units ++ vs, d.pending⟩ = vs.reverse ++ d.finish := by
  unfold finish
  cases d.pending <;> simp

end Decoder

theorem units_append_cons (front back : Bytes) {b : UInt8} (low : b.toNat < 0x80) :
    units (front ++ b :: back) = units front ++ some (Char.ofNat b.toNat) :: units back := by
  have met := (Decoder.guarded_foldl_feed front).feed_eq low
  have rest := Decoder.foldl_feed_append [] (some (Char.ofNat b.toNat) :: (units front).reverse)
    none back
  rw [List.nil_append] at rest
  unfold units at rest ⊢
  rw [List.foldl_append, List.foldl_cons, met, rest, Decoder.finish_append]
  simp [Decoder.start]

theorem decodeLossy_append_cons (front back : Bytes) {b : UInt8} (low : b.toNat < 0x80) :
    decodeLossy (front ++ b :: back) =
      decodeLossy front ++ Char.ofNat b.toNat :: decodeLossy back := by
  simp [decodeLossy, units_append_cons front back low]

theorem decode?_append_cons (front back : Bytes) {b : UInt8} (low : b.toNat < 0x80) :
    decode? (front ++ b :: back) = (decode? front).bind fun before =>
      (decode? back).map fun behind => before ++ Char.ofNat b.toNat :: behind := by
  have joined := units_append_cons front back low
  cases before : (units front).all Option.isSome with
  | false => simp [decode?, joined, before]
  | true =>
    cases behind : (units back).all Option.isSome with
    | false => simp [decode?, joined, before, behind]
    | true => simp [decode?, joined, before, behind]

/-! ### Reading back -/

theorem encode_append (s t : Text) : encode (s ++ t) = encode s ++ encode t := List.flatMap_append

theorem size_append (s t : Text) : size (s ++ t) = size s + size t := by
  rw [size, encode_append, List.length_append]
  rfl

theorem encode_flatten (texts : List Text) : encode texts.flatten = texts.flatMap encode := by
  induction texts with
  | nil => rfl
  | cons t texts ih => rw [List.flatten_cons, List.flatMap_cons, encode_append, ih]

theorem toNat_tailByte (n : Nat) : (tailByte n).toNat = 0x80 + n % 0x40 := by
  simp only [tailByte, UInt8.toNat_ofNat']
  omega

theorem encodeChar_of_lt {c : Char} (low : c.toNat < 0x80) :
    encodeChar c = [UInt8.ofNat c.toNat] := if_pos low

private theorem high_encodeChar {c : Char} (high : 0x80 ≤ c.toNat) :
    ∀ b ∈ encodeChar c, 0x80 ≤ b.toNat := by
  have tail : ∀ n, 0x80 ≤ (tailByte n).toNat := by
    intro n
    rw [toNat_tailByte]
    omega
  have valid : c.toNat < 0xD800 ∨ (0xDFFF < c.toNat ∧ c.toNat < 0x110000) := c.valid
  unfold encodeChar
  generalize c.toNat = n at high valid
  simp only
  rw [if_neg (by omega)]
  split
  · simp [tail]
    omega
  split
  · simp [tail]
    omega
  · simp [tail]
    omega

theorem shown_encodeChar {c : Char} (shown : 0x20 ≤ c.toNat) :
    ∀ b ∈ encodeChar c, 0x20 ≤ b.toNat := by
  intro b mem
  by_cases low : c.toNat < 0x80
  · rw [encodeChar_of_lt low, List.mem_singleton] at mem
    rw [mem, UInt8.toNat_ofNat']
    omega
  · have high := high_encodeChar (by omega) b mem
    omega

private theorem feed_between (us : List (Option Char)) (b : UInt8) :
    Decoder.feed ⟨us, none⟩ b = Decoder.begin ⟨us, none⟩ b.toNat := rfl

private theorem feed_more (us : List (Option Char)) (p : Pending) (n : Nat) (more : 1 < p.owed)
    (low : p.low ≤ 0x80 + n % 0x40) (high : 0x80 + n % 0x40 ≤ p.high) :
    Decoder.feed ⟨us, some p⟩ (tailByte n) =
      ⟨us, some ⟨p.owed - 1, 0x80, 0xBF, p.bits * 0x40 + n % 0x40⟩⟩ := by
  have many : ¬ p.owed ≤ 1 := by omega
  simp [Decoder.feed, toNat_tailByte, low, high, many]

private theorem feed_last (us : List (Option Char)) (p : Pending) (n : Nat) (last : p.owed = 1)
    (low : p.low ≤ 0x80 + n % 0x40) (high : 0x80 + n % 0x40 ≤ p.high) :
    Decoder.feed ⟨us, some p⟩ (tailByte n) =
      ⟨some (Char.ofNat (p.bits * 0x40 + n % 0x40)) :: us, none⟩ := by
  simp [Decoder.feed, toNat_tailByte, low, high, last]

private theorem begin_partly {us : List (Option Char)} {b : Nat} {p : Pending}
    (h : opening b = .partly p) : Decoder.begin ⟨us, none⟩ b = ⟨us, some p⟩ := by
  simp [Decoder.begin, h]

private theorem opening_two {b : Nat} (low : 0xC2 ≤ b) (high : b < 0xE0) :
    opening b = .partly ⟨1, 0x80, 0xBF, b - 0xC0⟩ := by
  rw [opening, if_neg (by omega), if_neg (by omega), if_pos high]

private theorem opening_three {b : Nat} (low : 0xE0 ≤ b) (high : b < 0xF0) :
    opening b = .partly ⟨2, if b = 0xE0 then 0xA0 else 0x80, if b = 0xED then 0x9F else 0xBF,
      b - 0xE0⟩ := by
  rw [opening, if_neg (by omega), if_neg (by omega), if_neg (by omega)]
  by_cases h : b = 0xE0
  · subst h; rfl
  · by_cases h' : b = 0xED
    · subst h'; rfl
    · simp [h, h', high]

private theorem opening_four {b : Nat} (low : 0xF0 ≤ b) (high : b ≤ 0xF4) :
    opening b = .partly ⟨3, if b = 0xF0 then 0x90 else 0x80, if b = 0xF4 then 0x8F else 0xBF,
      b - 0xF0⟩ := by
  rw [opening, if_neg (by omega), if_neg (by omega), if_neg (by omega), if_neg (by omega),
    if_neg (by omega), if_neg (by omega)]
  by_cases h : b = 0xF0
  · subst h; rfl
  · by_cases h' : b = 0xF4
    · subst h'; rfl
    · have below : b < 0xF4 := by omega
      simp [h, h', below]

theorem foldl_feed_encodeChar (us : List (Option Char)) (c : Char) :
    (encodeChar c).foldl Decoder.feed ⟨us, none⟩ = ⟨some c :: us, none⟩ := by
  have valid : c.toNat < 0xD800 ∨ (0xDFFF < c.toNat ∧ c.toNat < 0x110000) := c.valid
  have whole : Char.ofNat c.toNat = c := Char.ofNat_toNat c
  unfold encodeChar
  generalize c.toNat = n at valid whole
  simp only
  split
  · next one =>
    have small : n % 256 = n := by omega
    simp [feed_between, Decoder.begin, opening, UInt8.toNat_ofNat', small, one, whole]
  split
  · next two =>
    have first : (0xC0 + n / 0x40) % 256 = 0xC0 + n / 0x40 := by omega
    have bits : n / 0x40 * 0x40 + n % 0x40 = n := by omega
    rw [List.foldl_cons, List.foldl_cons, List.foldl_nil, feed_between, UInt8.toNat_ofNat', first,
      begin_partly (opening_two (by omega) (by omega)),
      feed_last _ _ _ rfl (by simp) (by simp; omega)]
    simp [bits, whole]
  split
  · next three =>
    have first : (0xE0 + n / 0x1000) % 256 = 0xE0 + n / 0x1000 := by omega
    have bits : (n / 0x1000 * 0x40 + n / 0x40 % 0x40) * 0x40 + n % 0x40 = n := by omega
    rw [List.foldl_cons, List.foldl_cons, List.foldl_cons, List.foldl_nil, feed_between,
      UInt8.toNat_ofNat', first, begin_partly (opening_three (by omega) (by omega)),
      feed_more _ _ _ (by simp) (by simp only; split <;> omega) (by simp only; split <;> omega),
      feed_last _ _ _ rfl (by simp) (by simp; omega)]
    simp [bits, whole]
  · have first : (0xF0 + n / 0x40000) % 256 = 0xF0 + n / 0x40000 := by omega
    have bits : ((n / 0x40000 * 0x40 + n / 0x1000 % 0x40) * 0x40 + n / 0x40 % 0x40) * 0x40 +
        n % 0x40 = n := by omega
    rw [List.foldl_cons, List.foldl_cons, List.foldl_cons, List.foldl_cons, List.foldl_nil,
      feed_between, UInt8.toNat_ofNat', first, begin_partly (opening_four (by omega) (by omega)),
      feed_more _ _ _ (by simp) (by simp only; split <;> omega) (by simp only; split <;> omega),
      feed_more _ _ _ (by simp) (by simp) (by simp; omega),
      feed_last _ _ _ rfl (by simp) (by simp; omega)]
    simp [bits, whole]

private theorem foldl_feed_encode (us : List (Option Char)) (t : Text) :
    (encode t).foldl Decoder.feed ⟨us, none⟩ = ⟨(t.map some).reverse ++ us, none⟩ := by
  induction t generalizing us with
  | nil => rfl
  | cons c t ih =>
    have cut : encode (c :: t) = encodeChar c ++ encode t := List.flatMap_cons
    rw [cut, List.foldl_append, foldl_feed_encodeChar, ih]
    simp

theorem units_encode (t : Text) : units (encode t) = t.map some := by
  rw [units, Decoder.start, foldl_feed_encode]
  simp [Decoder.finish]

theorem decode?_encode (t : Text) : decode? (encode t) = some t := by
  simp [decode?, units_encode, List.filterMap_map, List.all_map]

theorem encode_injective {s t : Text} (same : encode s = encode t) : s = t := by
  have read := decode?_encode s
  rw [same, decode?_encode] at read
  exact (Option.some.inj read).symm

private theorem units_suffix_begin (d : Decoder) (b : Nat) : d.units <:+ (d.begin b).units := by
  have kept := Decoder.begin_append [] d.units d.pending b
  exact ⟨_, (congrArg Decoder.units kept).symm⟩

private theorem units_suffix_foldl_feed (d : Decoder) (bytes : Bytes) :
    d.units <:+ (bytes.foldl Decoder.feed d).units := by
  have kept := Decoder.foldl_feed_append [] d.units d.pending bytes
  exact ⟨_, (congrArg Decoder.units kept).symm⟩

/-- A text whose bytes begin another text is itself a beginning of it: what was read before a cut
is not read otherwise with more bytes behind it. -/
theorem prefix_of_encode_prefix {front s : Text} (h : encode front <+: encode s) : front <+: s := by
  obtain ⟨rest, joined⟩ := h
  have grown := units_suffix_foldl_feed ((encode front).foldl Decoder.feed ⟨[], none⟩) rest
  rw [← List.foldl_append, joined, foldl_feed_encode, foldl_feed_encode] at grown
  have shown : front.map some <+: s.map some := by
    rw [← List.reverse_suffix]
    simpa using grown
  simpa [List.filterMap_map] using shown.filterMap id

theorem toNat_ofNat {n : Nat} (valid : n.isValidChar) : (Char.ofNat n).toNat = n := by
  unfold Char.ofNat
  rw [dif_pos valid]
  rfl

private theorem ofNat_eq {n : Nat} {b : UInt8} (same : n = b.toNat) : UInt8.ofNat n = b := by
  rw [same]
  exact UInt8.ofNat_toNat

private theorem tailByte_eq {n : Nat} {b : UInt8} (same : 0x80 + n % 0x40 = b.toNat) :
    tailByte n = b := ofNat_eq same

theorem encodeChar_one {b : UInt8} (low : b.toNat < 0x80) :
    encodeChar (Char.ofNat b.toNat) = [b] := by
  unfold encodeChar
  simp only [toNat_ofNat (Or.inl (by omega) : b.toNat.isValidChar)]
  rw [if_pos low, ofNat_eq rfl]

private theorem encodeChar_two {b c : UInt8} (low : 0xC2 ≤ b.toNat) (high : b.toNat < 0xE0)
    (lowC : 0x80 ≤ c.toNat) (highC : c.toNat ≤ 0xBF) :
    encodeChar (Char.ofNat ((b.toNat - 0xC0) * 0x40 + (c.toNat - 0x80))) = [b, c] := by
  generalize number : (b.toNat - 0xC0) * 0x40 + (c.toNat - 0x80) = n
  have valid : n.isValidChar := Or.inl (by omega)
  have first : UInt8.ofNat (0xC0 + n / 0x40) = b := ofNat_eq (by omega)
  have second : tailByte n = c := tailByte_eq (by omega)
  unfold encodeChar
  simp only [toNat_ofNat valid]
  rw [if_neg (by omega), if_pos (by omega), first, second]

private theorem encodeChar_three {b c d : UInt8} (low : 0xE0 ≤ b.toNat) (high : b.toNat < 0xF0)
    (lowC : (if b.toNat = 0xE0 then 0xA0 else 0x80) ≤ c.toNat)
    (highC : c.toNat ≤ if b.toNat = 0xED then 0x9F else 0xBF)
    (lowD : 0x80 ≤ d.toNat) (highD : d.toNat ≤ 0xBF) :
    encodeChar (Char.ofNat (((b.toNat - 0xE0) * 0x40 + (c.toNat - 0x80)) * 0x40 +
      (d.toNat - 0x80))) = [b, c, d] := by
  generalize number : ((b.toNat - 0xE0) * 0x40 + (c.toNat - 0x80)) * 0x40 + (d.toNat - 0x80) = n
  have wide : 0x80 ≤ c.toNat ∧ c.toNat ≤ 0xBF := by
    constructor <;> split at lowC <;> split at highC <;> omega
  have large : 0x800 ≤ n := by
    split at lowC <;> omega
  have valid : n.isValidChar := by
    unfold Nat.isValidChar
    split at highC <;> omega
  have first : UInt8.ofNat (0xE0 + n / 0x1000) = b := ofNat_eq (by omega)
  have second : tailByte (n / 0x40) = c := tailByte_eq (by omega)
  have third : tailByte n = d := tailByte_eq (by omega)
  unfold encodeChar
  simp only [toNat_ofNat valid]
  rw [if_neg (by omega), if_neg (by omega), if_pos (by omega), first, second, third]

private theorem encodeChar_four {b c d e : UInt8} (low : 0xF0 ≤ b.toNat) (high : b.toNat ≤ 0xF4)
    (lowC : (if b.toNat = 0xF0 then 0x90 else 0x80) ≤ c.toNat)
    (highC : c.toNat ≤ if b.toNat = 0xF4 then 0x8F else 0xBF)
    (lowD : 0x80 ≤ d.toNat) (highD : d.toNat ≤ 0xBF)
    (lowE : 0x80 ≤ e.toNat) (highE : e.toNat ≤ 0xBF) :
    encodeChar (Char.ofNat ((((b.toNat - 0xF0) * 0x40 + (c.toNat - 0x80)) * 0x40 +
      (d.toNat - 0x80)) * 0x40 + (e.toNat - 0x80))) = [b, c, d, e] := by
  generalize number : (((b.toNat - 0xF0) * 0x40 + (c.toNat - 0x80)) * 0x40 +
    (d.toNat - 0x80)) * 0x40 + (e.toNat - 0x80) = n
  have wide : 0x80 ≤ c.toNat ∧ c.toNat ≤ 0xBF := by
    constructor <;> split at lowC <;> split at highC <;> omega
  have large : 0x10000 ≤ n := by
    split at lowC <;> omega
  have valid : n.isValidChar := by
    unfold Nat.isValidChar
    split at highC <;> omega
  have first : UInt8.ofNat (0xF0 + n / 0x40000) = b := ofNat_eq (by omega)
  have second : tailByte (n / 0x1000) = c := tailByte_eq (by omega)
  have third : tailByte (n / 0x40) = d := tailByte_eq (by omega)
  have fourth : tailByte n = e := tailByte_eq (by omega)
  unfold encodeChar
  simp only [toNat_ofNat valid]
  rw [if_neg (by omega), if_neg (by omega), if_neg (by omega), first, second, third, fourth]

/-- No fault is read from some bytes on. -/
private def Faultless (d : Decoder) (bytes : Bytes) : Prop :=
  ∀ u ∈ (bytes.foldl Decoder.feed d).finish, u.isSome = true

private theorem Faultless.not_mem {d : Decoder} {bytes : Bytes} (faultless : Faultless d bytes) :
    none ∉ d.units := by
  intro mem
  have grown := (units_suffix_foldl_feed d bytes).subset mem
  have finished : none ∈ (bytes.foldl Decoder.feed d).finish := by
    unfold Decoder.finish
    split
    · exact List.mem_reverse.mpr grown
    · exact List.mem_reverse.mpr List.mem_cons_self
  exact absurd (faultless none finished) (by simp)

private theorem Faultless.exists_cons {us : List (Option Char)} {p : Pending} {bytes : Bytes}
    (faultless : Faultless ⟨us, some p⟩ bytes) :
    ∃ b rest, bytes = b :: rest ∧ p.low ≤ b.toNat ∧ b.toNat ≤ p.high ∧
      Faultless (if p.owed ≤ 1 then
        ⟨some (Char.ofNat (p.bits * 0x40 + (b.toNat - 0x80))) :: us, none⟩
        else ⟨us, some ⟨p.owed - 1, 0x80, 0xBF, p.bits * 0x40 + (b.toNat - 0x80)⟩⟩) rest := by
  cases bytes with
  | nil => exact absurd (faultless none (by simp [Decoder.finish])) (by simp)
  | cons b rest =>
    by_cases inside : p.low ≤ b.toNat ∧ b.toNat ≤ p.high
    · refine ⟨b, rest, rfl, inside.1, inside.2, ?_⟩
      have fed : Decoder.feed ⟨us, some p⟩ b = if p.owed ≤ 1 then
          ⟨some (Char.ofNat (p.bits * 0x40 + (b.toNat - 0x80))) :: us, none⟩
          else ⟨us, some ⟨p.owed - 1, 0x80, 0xBF, p.bits * 0x40 + (b.toNat - 0x80)⟩⟩ := by
        simp [Decoder.feed, inside]
      rw [← fed]
      exact faultless
    · have fed : Decoder.feed ⟨us, some p⟩ b = (⟨none :: us, none⟩ : Decoder).begin b.toNat := by
        simp [Decoder.feed, inside]
      have after : Faultless (Decoder.begin ⟨none :: us, none⟩ b.toNat) rest := fed ▸ faultless
      have kept := (units_suffix_begin ⟨none :: us, none⟩ b.toNat).subset List.mem_cons_self
      exact absurd kept after.not_mem

private theorem Faultless.exists_encode_eq (us : List (Option Char)) (bytes : Bytes)
    (faultless : Faultless ⟨us, none⟩ bytes) : ∃ t, encode t = bytes := by
  match bytes with
  | [] => exact ⟨[], rfl⟩
  | b :: rest =>
    have begun : Faultless (Decoder.begin ⟨us, none⟩ b.toNat) rest := faultless
    by_cases one : b.toNat < 0x80
    · have whole : opening b.toNat = .whole (Char.ofNat b.toNat) := if_pos one
      rw [Decoder.begin, whole] at begun
      obtain ⟨t, rfl⟩ := exists_encode_eq _ rest begun
      exact ⟨_ :: t, congrArg (· ++ encode t) (encodeChar_one one)⟩
    by_cases gap : b.toNat < 0xC2
    · have fault : opening b.toNat = .fault := by
        rw [opening, if_neg one, if_pos gap]
      rw [Decoder.begin, fault] at begun
      exact absurd List.mem_cons_self begun.not_mem
    by_cases two : b.toNat < 0xE0
    · rw [begin_partly (opening_two (by omega) two)] at begun
      obtain ⟨c, rest, rfl, lowC, highC, closed⟩ := begun.exists_cons
      obtain ⟨t, rfl⟩ := exists_encode_eq _ rest closed
      exact ⟨_ :: t, congrArg (· ++ encode t) (encodeChar_two (by omega) two lowC highC)⟩
    by_cases three : b.toNat < 0xF0
    · rw [begin_partly (opening_three (by omega) three)] at begun
      obtain ⟨c, rest, rfl, lowC, highC, more⟩ := begun.exists_cons
      obtain ⟨d, rest, rfl, lowD, highD, closed⟩ := more.exists_cons
      obtain ⟨t, rfl⟩ := exists_encode_eq _ rest closed
      exact ⟨_ :: t, congrArg (· ++ encode t)
        (encodeChar_three (by omega) three lowC highC lowD highD)⟩
    by_cases four : b.toNat ≤ 0xF4
    · rw [begin_partly (opening_four (by omega) four)] at begun
      obtain ⟨c, rest, rfl, lowC, highC, more⟩ := begun.exists_cons
      obtain ⟨d, rest, rfl, lowD, highD, last⟩ := more.exists_cons
      obtain ⟨e, rest, rfl, lowE, highE, closed⟩ := last.exists_cons
      obtain ⟨t, rfl⟩ := exists_encode_eq _ rest closed
      exact ⟨_ :: t, congrArg (· ++ encode t)
        (encodeChar_four (by omega) four lowC highC lowD highD lowE highE)⟩
    · have fault : opening b.toNat = .fault := by
        rw [opening, if_neg one, if_neg gap, if_neg two, if_neg (by omega), if_neg (by omega),
          if_neg three, if_neg (by omega), if_neg (by omega), if_neg (by omega)]
      rw [Decoder.begin, fault] at begun
      exact absurd List.mem_cons_self begun.not_mem
termination_by bytes.length
decreasing_by
  all_goals subst_vars
  all_goals simp only [List.length_cons]
  all_goals omega

theorem decode?_eq_some_iff {bytes : Bytes} {t : Text} :
    decode? bytes = some t ↔ encode t = bytes := by
  constructor
  · intro decoded
    have faultless : Faultless .start bytes := by
      intro u mem
      cases u with
      | some c => rfl
      | none =>
        have refused : (units bytes).all Option.isSome = false :=
          List.all_eq_false.mpr ⟨none, mem, by simp⟩
        simp [decode?, refused] at decoded
    obtain ⟨read, rfl⟩ := faultless.exists_encode_eq
    rw [decode?_encode] at decoded
    rw [Option.some.inj decoded]
  · intro same
    rw [← same, decode?_encode]

theorem decode?_concat (bytes : Bytes) {b : UInt8} (low : b.toNat < 0x80) :
    decode? (bytes ++ [b]) = (decode? bytes).map (· ++ [Char.ofNat b.toNat]) := by
  have nothing : decode? [] = some [] := rfl
  rw [decode?_append_cons bytes [] low, nothing]
  cases decode? bytes <;> rfl

theorem encodeChar_ne_nil (c : Char) : encodeChar c ≠ [] := by
  unfold encodeChar
  simp only
  repeat' split
  all_goals exact List.cons_ne_nil _ _

theorem eq_of_mem_encodeChar {c d : Char} (low : c.toNat < 0x80)
    (mem : UInt8.ofNat c.toNat ∈ encodeChar d) : d = c := by
  have value {e : Char} (low : e.toNat < 0x80) : (UInt8.ofNat e.toNat).toNat = e.toNat := by
    rw [UInt8.toNat_ofNat']
    omega
  by_cases small : d.toNat < 0x80
  · rw [encodeChar_of_lt small, List.mem_singleton] at mem
    have same := congrArg UInt8.toNat mem
    rw [value low, value small] at same
    exact Char.toNat_inj.mp same.symm
  · have high := high_encodeChar (by omega) _ mem
    rw [value low] at high
    omega

theorem mem_encode_iff {c : Char} (low : c.toNat < 0x80) {text : Text} :
    UInt8.ofNat c.toNat ∈ encode text ↔ c ∈ text := by
  constructor
  · intro mem
    obtain ⟨d, inside, mem⟩ := List.mem_flatMap.mp mem
    rwa [eq_of_mem_encodeChar low mem] at inside
  · intro mem
    exact List.mem_flatMap.mpr ⟨c, mem, by simp [encodeChar_of_lt low]⟩

theorem lineFeed_mem_encode_iff {text : Text} : 10 ∈ encode text ↔ '\n' ∈ text :=
  mem_encode_iff (c := '\n') (by decide)

theorem head?_encode_iff {c : Char} (low : c.toNat < 0x80) {text : Text} :
    (encode text).head? = some (UInt8.ofNat c.toNat) ↔ text.head? = some c := by
  cases text with
  | nil => simp [encode]
  | cons d rest =>
    obtain ⟨b, more, opened⟩ := List.exists_cons_of_ne_nil (encodeChar_ne_nil d)
    have whole : encode (d :: rest) = b :: (more ++ encode rest) := by
      rw [encode, List.flatMap_cons, opened]
      rfl
    rw [whole, List.head?_cons, List.head?_cons, Option.some_inj, Option.some_inj]
    constructor
    · rintro rfl
      exact eq_of_mem_encodeChar low (by simp [opened])
    · rintro rfl
      rw [encodeChar_of_lt low] at opened
      exact (List.head_eq_of_cons_eq opened).symm

/-! ### Parts of a text between two bytes -/

def isTail (b : UInt8) : Bool := 0x80 ≤ b.toNat && b.toNat < 0xC0

/-- Whether a place is the end of a text or lies in front of one of its characters. -/
def isBoundary (text : Text) (place : Nat) : Bool :=
  match (encode text)[place]? with
  | none => place = size text
  | some b => !isTail b

/-- The text between two places, unless one of them lies inside a character or past the end. -/
def slice? (text : Text) (start stop : Nat) : Option Text :=
  if start ≤ stop && isBoundary text start && isBoundary text stop then
    decode? (((encode text).take stop).drop start)
  else none

theorem encode_cons (c : Char) (text : Text) : encode (c :: text) = encodeChar c ++ encode text :=
  List.flatMap_cons

theorem exists_encodeChar_eq (c : Char) : ∃ first more, encodeChar c = first :: more ∧
    isTail first = false ∧ ∀ b ∈ more, isTail b = true := by
  have valid : c.toNat < 0xD800 ∨ (0xDFFF < c.toNat ∧ c.toNat < 0x110000) := c.valid
  have tail : ∀ n, isTail (tailByte n) = true := by
    intro n
    simp only [isTail, toNat_tailByte, Bool.and_eq_true, decide_eq_true_eq]
    omega
  have lead {n : Nat} (small : n < 256) (other : n < 0x80 ∨ 0xC0 ≤ n) :
      isTail (UInt8.ofNat n) = false := by
    rw [← Bool.not_eq_true]
    simp only [isTail, UInt8.toNat_ofNat_of_lt' small, Bool.and_eq_true, decide_eq_true_eq]
    omega
  unfold encodeChar
  generalize c.toNat = n at valid
  simp only
  split
  · exact ⟨_, _, rfl, lead (by omega) (by omega), by simp⟩
  split
  · exact ⟨_, _, rfl, lead (by omega) (by omega), by simp [tail]⟩
  split
  · exact ⟨_, _, rfl, lead (by omega) (by omega), by simp [tail]⟩
  · exact ⟨_, _, rfl, lead (by omega) (by omega), by simp [tail]⟩

theorem isBoundary_append (front back : Text) : isBoundary (front ++ back) (size front) = true := by
  have here : (encode (front ++ back))[size front]? = (encode back).head? := by
    rw [encode_append, size, List.getElem?_append_right (Nat.le_refl _), Nat.sub_self,
      List.head?_eq_getElem?]
  unfold isBoundary
  rw [here]
  cases back with
  | nil => simp [encode]
  | cons c back =>
    obtain ⟨first, more, bytes, begins, -⟩ := exists_encodeChar_eq c
    rw [encode_cons, bytes]
    simp [begins]

theorem isBoundary_cons_of_le (c : Char) (text : Text) {place : Nat}
    (past : (encodeChar c).length ≤ place) :
    isBoundary (c :: text) place = isBoundary text (place - (encodeChar c).length) := by
  have ends : place = size (c :: text) ↔ place - (encodeChar c).length = size text := by
    rw [size, encode_cons, List.length_append, size]
    omega
  unfold isBoundary
  rw [encode_cons, List.getElem?_append_right past, decide_eq_decide.mpr ends]

/-- The places where nothing is cut in two are those that are the size of a beginning. -/
theorem isBoundary_iff {text : Text} {place : Nat} :
    isBoundary text place = true ↔ ∃ front back, text = front ++ back ∧ size front = place := by
  constructor
  · intro boundary
    induction text generalizing place with
    | nil =>
      have zero : place = 0 := by simpa [isBoundary, encode, size] using boundary
      exact ⟨[], [], rfl, zero.symm⟩
    | cons c text ih =>
      obtain ⟨first, more, bytes, -, tails⟩ := exists_encodeChar_eq c
      rcases Nat.lt_or_ge place (encodeChar c).length with inside | past
      · cases place with
        | zero => exact ⟨[], c :: text, rfl, rfl⟩
        | succ place =>
          rw [bytes, List.length_cons, Nat.succ_lt_succ_iff] at inside
          have here : (encode (c :: text))[place + 1]? = some more[place] := by
            rw [encode_cons, bytes, List.cons_append, List.getElem?_cons_succ,
              List.getElem?_append_left inside, List.getElem?_eq_getElem inside]
          simp [isBoundary, here, tails _ (List.getElem_mem inside)] at boundary
      · rw [isBoundary_cons_of_le c text past] at boundary
        obtain ⟨front, back, rfl, same⟩ := ih boundary
        refine ⟨c :: front, back, rfl, ?_⟩
        rw [size, encode_cons, List.length_append]
        have measured : (encode front).length = place - (encodeChar c).length := same
        omega
  · rintro ⟨front, back, rfl, rfl⟩
    exact isBoundary_append front back

theorem encode_between (front part back : Text) :
    ((encode (front ++ part ++ back)).take (size (front ++ part))).drop (size front) =
      encode part := by
  have taken : (encode (front ++ part ++ back)).take (size (front ++ part)) =
      encode front ++ encode part := by
    rw [encode_append (front ++ part), ← encode_append front part]
    exact List.take_left
  rw [taken]
  exact List.drop_left

theorem slice?_append (front part back : Text) :
    slice? (front ++ part ++ back) (size front) (size (front ++ part)) = some part := by
  have start : isBoundary (front ++ part ++ back) (size front) = true := by
    rw [List.append_assoc]
    exact isBoundary_append front (part ++ back)
  have stop := isBoundary_append (front ++ part) back
  have order : size front ≤ size (front ++ part) := by
    rw [size_append]
    exact Nat.le_add_right ..
  rw [slice?, if_pos (by simp only [order, start, stop, decide_true, Bool.and_self]),
    encode_between, decode?_encode]

theorem slice?_eq_some_iff {text part : Text} {start stop : Nat} :
    slice? text start stop = some part ↔
      ∃ front back, text = front ++ part ++ back ∧ size front = start ∧
        size (front ++ part) = stop := by
  constructor
  · intro taken
    unfold slice? at taken
    split at taken
    · next cond =>
      simp only [Bool.and_eq_true, decide_eq_true_eq] at cond
      obtain ⟨⟨order, first⟩, last⟩ := cond
      obtain ⟨before, back, rfl, rfl⟩ := isBoundary_iff.mp last
      obtain ⟨front, rest, same, rfl⟩ := isBoundary_iff.mp first
      -- of the two beginnings the one with fewer bytes begins the other
      have shorter : encode front <+: encode (before ++ back) := by
        rw [same, encode_append]
        exact List.prefix_append ..
      have longer : encode before <+: encode (before ++ back) := by
        rw [encode_append]
        exact List.prefix_append ..
      obtain ⟨middle, rfl⟩ := prefix_of_encode_prefix
        (List.prefix_of_prefix_length_le shorter longer order)
      rw [encode_between, decode?_encode] at taken
      cases taken
      exact ⟨front, back, rfl, rfl, rfl⟩
    · cases taken
  · rintro ⟨front, back, rfl, rfl, rfl⟩
    exact slice?_append front part back

end ClassQuery.Utf8
