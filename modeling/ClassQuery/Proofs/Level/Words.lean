import ClassQuery.Settings
import ClassQuery.Text.Utf8.Lemmas

/-!
The texts that name a level.

Within ASCII a capital letter becomes the small letter of ASCII and nothing else changes. Past ASCII
one character leaves it no trace: the Kelvin sign, which becomes a small k. The words for the levels
have no k and no blank. Main statement: a text names a level exactly when it is one of the words, in
small or capital letters of ASCII, between two runs of blanks; any other is refused, quoted as it
was given.
-/

set_option autoImplicit false
set_option relaxedAutoImplicit false

/-! ### Lower case and ASCII -/

namespace ClassQuery.Lowercase

theorem toLower_of_high {c : Char} (high : 0x80 ≤ c.toNat) : c.toLower = c := by
  have outside : ¬ (c.val ≥ 'A'.val ∧ c.val ≤ 'Z'.val) := by
    rintro ⟨-, below⟩
    have bound : c.toNat ≤ 'Z'.toNat := UInt32.le_iff_toNat_le.mp below
    have last : 'Z'.toNat = 0x5A := rfl
    omega
  exact dif_neg outside

theorem find?_runs_of_lt {n : Nat} (low : n < 0x80) : runs.find? (·.covers n) =
    if 0x41 ≤ n ∧ n ≤ 0x5A then some ⟨0x41, 0x5A, 1, 0x61⟩ else none := by
  have parts : runs = ⟨0x41, 0x5A, 1, 0x61⟩ :: runs.tail := rfl
  have later : ∀ r ∈ runs.tail, 0x80 ≤ r.first := by decide +kernel
  have none : runs.tail.find? (·.covers n) = none := by
    rw [List.find?_eq_none]
    intro r member
    have past := later r member
    simp only [Run.covers, Bool.and_eq_true, decide_eq_true_eq]
    omega
  have first : Run.covers ⟨0x41, 0x5A, 1, 0x61⟩ n = decide (0x41 ≤ n ∧ n ≤ 0x5A) := by
    simp [Run.covers, Nat.mod_one]
  rw [parts, List.find?_cons, none, first]
  by_cases capital : 0x41 ≤ n ∧ n ≤ 0x5A
  · rw [if_pos capital, decide_eq_true capital]
  · rw [if_neg capital, decide_eq_false capital]

theorem ofChar_of_lt {c : Char} (low : c.toNat < 0x80) : ofChar c = [c.toLower] := by
  have lowered : ∀ n < 0x80, (if 0x41 ≤ n ∧ n ≤ 0x5A then Char.ofNat (0x61 + (n - 0x41))
      else Char.ofNat n) = (Char.ofNat n).toLower := by decide +kernel
  have small := lowered c.toNat low
  rw [Char.ofNat_toNat] at small
  rw [ofChar, if_neg (by omega), find?_runs_of_lt low, ← small]
  by_cases capital : 0x41 ≤ c.toNat ∧ c.toNat ≤ 0x5A
  · simp [capital]
  · simp [capital]

theorem small_of_mem_runs : ∀ r ∈ runs, r.last < 0x80 ∨ (r.first = r.last ∧ r.small = 'k'.toNat) ∨
    0x80 ≤ r.small ∧ (r.small + (r.last - r.first) < 0xD800 ∨
      0xDFFF < r.small ∧ r.small + (r.last - r.first) < 0x110000) := by
  decide +kernel

/-- A character past ASCII becomes a k or leaves something past ASCII. -/
theorem exists_mem_ofChar {c : Char} (high : 0x80 ≤ c.toNat) :
    ∃ d ∈ ofChar c, d = 'k' ∨ 0x80 ≤ d.toNat := by
  unfold ofChar
  split
  · exact ⟨Char.ofNat 0x307, by simp, .inr (by decide)⟩
  · split
    · next r found =>
      have covers := List.find?_some found
      simp only [Run.covers, Bool.and_eq_true, decide_eq_true_eq] at covers
      refine ⟨_, List.mem_singleton_self _, ?_⟩
      rcases small_of_mem_runs r (List.mem_of_find?_eq_some found) with low | kelvin | past
      · omega
      · left
        have only : r.small + (c.toNat - r.first) = 'k'.toNat := by omega
        rw [only, Char.ofNat_toNat]
      · right
        have valid : (r.small + (c.toNat - r.first)).isValidChar := by
          unfold Nat.isValidChar
          omega
        rw [Utf8.toNat_ofNat valid]
        omega
    · exact ⟨c, List.mem_singleton_self c, .inr high⟩

variable (before : Text)

theorem ofPlaced_of_lt {c : Char} (low : c.toNat < 0x80) (behind : Text) :
    ofPlaced before c behind = [c.toLower] := by
  have other : c ≠ 'Σ' := by
    rintro rfl
    exact absurd low (by decide)
  rw [ofPlaced, if_neg other, ofChar_of_lt low]

theorem exists_mem_ofPlaced {c : Char} (high : 0x80 ≤ c.toNat) (behind : Text) :
    ∃ d ∈ ofPlaced before c behind, d = 'k' ∨ 0x80 ≤ d.toNat := by
  unfold ofPlaced
  split
  · refine ⟨_, List.mem_singleton_self _, .inr ?_⟩
    unfold ofSigma
    split <;> decide
  · exact exists_mem_ofChar high

theorem through_of_ascii {text : Text} (ascii : ∀ c ∈ text, c.toNat < 0x80) :
    through before [] text = text.map Char.toLower := by
  induction text generalizing before with
  | nil => rfl
  | cons c behind ih =>
    rw [List.forall_mem_cons] at ascii
    rw [through_cons, ofPlaced_of_lt before ascii.1, ih (c :: before) ascii.2]
    rfl

theorem exists_mem_through {text : Text} {c : Char} (member : c ∈ text) (high : 0x80 ≤ c.toNat) :
    ∃ d ∈ through before [] text, d = 'k' ∨ 0x80 ≤ d.toNat := by
  induction text generalizing before with
  | nil => cases member
  | cons first behind ih =>
    rw [through_cons]
    rcases List.mem_cons.mp member with rfl | later
    · obtain ⟨d, inside, past⟩ := exists_mem_ofPlaced before high behind
      exact ⟨d, List.mem_append_left _ inside, past⟩
    · obtain ⟨d, inside, past⟩ := ih (first :: before) later
      exact ⟨d, List.mem_append_right _ inside, past⟩

theorem ofText_eq_iff {text word : Text} (plain : ∀ d ∈ word, d.toNat < 0x80 ∧ d ≠ 'k') :
    ofText text = word ↔ text.map Char.toLower = word := by
  constructor
  · rintro rfl
    have ascii : ∀ c ∈ text, c.toNat < 0x80 := by
      intro c member
      apply Nat.lt_of_not_le
      intro high
      obtain ⟨d, inside, past⟩ := exists_mem_through [] member high
      obtain ⟨low, other⟩ := plain d inside
      exact past.elim other (Nat.not_le_of_lt low)
    exact (through_of_ascii [] ascii).symm
  · rintro rfl
    apply through_of_ascii []
    intro c member
    apply Nat.lt_of_not_le
    intro high
    have low := (plain c.toLower (List.mem_map_of_mem member)).1
    rw [toLower_of_high high] at low
    exact Nat.not_le_of_lt low high

end ClassQuery.Lowercase

/-! ### Words for the levels -/

namespace ClassQuery.Level

/-- A text is one of the words for a level, in small or capital letters of ASCII, between blanks. -/
def IsSpelled (text : Text) (level : Level) : Prop :=
  ∃ before word behind, text = before ++ word ++ behind ∧
    (∀ c ∈ before, Blank.isBlank c = true) ∧ (∀ c ∈ behind, Blank.isBlank c = true) ∧
    (word.map Char.toLower, level) ∈
      [("trace".toList, Level.trace), ("debug".toList, .debug), ("info".toList, .info),
        ("warn".toList, .warn), ("warning".toList, .warn), ("error".toList, .error)]

theorem letters_of_mem_words : ∀ entry ∈ words, ∀ d ∈ entry.1,
    97 ≤ d.toNat ∧ d.toNat ≤ 122 ∧ d ≠ 'k' := by
  have all : (words.all fun entry => entry.1.all fun d =>
      97 ≤ d.toNat ∧ d.toNat ≤ 122 ∧ d ≠ 'k') = true := by decide +kernel
  intro entry listed d member
  exact of_decide_eq_true (List.all_eq_true.mp (List.all_eq_true.mp all entry listed) d member)

theorem lookup_words_eq_some_iff {text : Text} {level : Level} :
    words.lookup text = some level ↔ (text, level) ∈ words := by
  constructor
  · intro found
    obtain ⟨front, back, parts, -⟩ := List.lookup_eq_some_iff.mp found
    rw [parts]
    exact List.mem_append_right _ List.mem_cons_self
  · intro member
    simp only [words, List.mem_cons, List.not_mem_nil, or_false, Prod.mk.injEq] at member
    rcases member with ⟨rfl, rfl⟩ | ⟨rfl, rfl⟩ | ⟨rfl, rfl⟩ | ⟨rfl, rfl⟩ | ⟨rfl, rfl⟩ | ⟨rfl, rfl⟩
    all_goals rfl

theorem ofText_mem_words_iff {text : Text} {level : Level} :
    (Lowercase.ofText text, level) ∈ words ↔ (text.map Char.toLower, level) ∈ words := by
  have plain {word : Text} (listed : (word, level) ∈ words) :
      ∀ d ∈ word, d.toNat < 0x80 ∧ d ≠ 'k' := by
    intro d member
    obtain ⟨-, high, other⟩ := letters_of_mem_words _ listed d member
    exact ⟨by omega, other⟩
  constructor
  · intro listed
    rwa [(Lowercase.ofText_eq_iff (plain listed)).mp rfl]
  · intro listed
    rwa [(Lowercase.ofText_eq_iff (plain listed)).mpr rfl]

theorem isBlank_eq_false_of_letter {c : Char} (low : 97 ≤ c.toLower.toNat)
    (high : c.toLower.toNat ≤ 122) : Blank.isBlank c = false := by
  have ascii : c.toNat < 0x80 := by
    apply Nat.lt_of_not_le
    intro past
    rw [Lowercase.toLower_of_high past] at high
    omega
  have all : ∀ n < 0x80, 97 ≤ (Char.ofNat n).toLower.toNat → (Char.ofNat n).toLower.toNat ≤ 122 →
      Blank.isBlank (Char.ofNat n) = false := by decide +kernel
  rw [← Char.ofNat_toNat c] at low high ⊢
  exact all c.toNat ascii low high

theorem not_isBlank_of_mem_words {word : Text} {level : Level}
    (listed : (word.map Char.toLower, level) ∈ words) : ∀ c ∈ word, Blank.isBlank c = false := by
  intro c member
  obtain ⟨low, high, -⟩ := letters_of_mem_words _ listed _ (List.mem_map_of_mem member)
  exact isBlank_eq_false_of_letter low high

theorem ofText?_eq_some_iff {text : Text} {level : Level} :
    ofText? text = some level ↔ IsSpelled text level := by
  rw [ofText?, lookup_words_eq_some_iff, ofText_mem_words_iff]
  constructor
  · intro listed
    obtain ⟨before, behind, whole, front, back⟩ := Blank.exists_trim text
    exact ⟨before, Blank.trim text, behind, whole, front, back, listed⟩
  · rintro ⟨before, word, behind, rfl, front, back, listed⟩
    rwa [Blank.trim_append front back (not_isBlank_of_mem_words listed)]

/-- A text is read as a level exactly when one of the words for it is spelled in it. Any other text
is refused and quoted with its blanks and capital letters. -/
theorem read_exact (text : Text) :
    (∀ level, read text = .ok level ↔ IsSpelled text level) ∧
    ∀ fault, read text = .error fault ↔ (∀ level, ¬ IsSpelled text level) ∧
      fault = .setting ("unknown log level '".toList ++ text ++
        "', expected one of: trace, debug, info, warn, error".toList) := by
  simp only [← ofText?_eq_some_iff]
  unfold read
  cases named : ofText? text with
  | none => simp [eq_comm]
  | some found => simp

/-- Blanks past ASCII are left out, and a dotted capital I spells no level. -/
example : ofText? "\u3000WarnING\u0085".toList = some .warn ∧ ofText? "İNFO".toList = none := by
  decide +kernel

end ClassQuery.Level
