import ClassQuery.Proofs.Abbreviation.Scanning

/-!
Where a scan stands at each of its steps.

A cursor stands between two characters, behind what its atoms are written as, and so does the one
that it advances to. Main statement: at every step the name behind a dot can be cut out of the
abbreviation, no fault but one at the cursor itself ends the scan, and the steps end before there
are more of them than half the bytes.
-/

set_option autoImplicit false
set_option relaxedAutoImplicit false

namespace ClassQuery.Abbreviation

/-- The cursors that a scan of a text comes to, each with the number of steps to it. -/
inductive Reached (s : Text) : Nat → Cursor → Prop
  | start : Reached s 0 (.start (Utf8.encode s))
  | advanced {n : Nat} {c next : Cursor} :
      Reached s n c → c.step = .advanced next → Reached s (n + 1) next

namespace Cursor

def shown (c : Cursor) : Text := Atom.renderAll c.atoms.reverse

/-- Where the letters end that stand behind the byte at a cursor. -/
def nameEnd (c : Cursor) : Nat := c.position + 1 + (c.rest.tail.takeWhile isNameByte).length

/-- A cursor stands in a text, behind its atoms and before the rest of the characters. -/
structure Stands (s : Text) (c : Cursor) (ahead : Text) : Prop where
  whole : s = c.shown ++ ahead
  position : Utf8.size c.shown = c.position
  rest : Utf8.encode ahead = c.rest

/-- What holds of a cursor that a scan comes to in some number of steps. -/
structure Sound (s : Text) (steps : Nat) (c : Cursor) : Prop where
  within : c.position ≤ Utf8.size s
  between : Utf8.isBoundary s c.position = true
  shown : Utf8.encode (Atom.renderAll c.atoms.reverse) = (Utf8.encode s).take c.position
  rest : c.rest = (Utf8.encode s).drop c.position
  counted : 2 * steps ≤ Utf8.size s
  /-- Behind a dot the letters can be cut out of the text. They are the next name, unless there are
  none. -/
  sliced : ∀ more, c.rest = dot :: more → c.nameEnd ≤ Utf8.size s ∧
    ∃ name, Utf8.slice? s (c.position + 1) c.nameEnd = some name ∧
      c.step = if name = [] then .stuck c.position
        else .advanced ⟨c.nameEnd, (Utf8.encode s).drop c.nameEnd, .ofClass name :: c.atoms⟩
  stuck : ∀ place, c.step = .stuck place → place = c.position
  advances : ∀ next, c.step = .advanced next → c.position < next.position

/-- A step ends the scan at the end of the bytes, reads the name behind a dot or is stuck. -/
theorem step_cases (c : Cursor) :
    (c.rest = [] ∧ c.step = .finished c.atoms.reverse) ∨
    (∃ name rest, IsName name ∧ (∀ b ∈ rest.head?, b ∉ alphabet) ∧ c.rest = dot :: (name ++ rest) ∧
      c.step = .advanced ⟨c.position + 1 + name.length, rest, classOf name :: c.atoms⟩) ∨
    (∀ name, IsName name → ¬ dot :: name <+: c.rest) ∧ c.step = .stuck c.position := by
  by_cases empty : c.rest = []
  · exact .inl ⟨empty, step_of_nil empty⟩
  rcases exists_name_or_stuck c.rest with ⟨name, rest, named, closed, parts⟩ | stuck
  · exact .inr (.inl ⟨name, rest, named, closed, parts, step_of_name named closed parts⟩)
  · exact .inr (.inr ⟨stuck, step_of_stuck empty stuck⟩)

theorem exists_of_step_eq_advanced {c next : Cursor} (stepped : c.step = .advanced next) :
    ∃ name rest, IsName name ∧ c.rest = dot :: (name ++ rest) ∧
      next = ⟨c.position + 1 + name.length, rest, classOf name :: c.atoms⟩ := by
  rcases c.step_cases with ⟨-, step⟩ | ⟨name, rest, named, -, parts, step⟩ | ⟨-, step⟩
  · cases step.symm.trans stepped
  · cases step.symm.trans stepped
    exact ⟨name, rest, named, parts, rfl⟩
  · cases step.symm.trans stepped

theorem eq_position_of_stuck {c : Cursor} {place : Nat} (stuck : c.step = .stuck place) :
    place = c.position := by
  rcases c.step_cases with ⟨-, step⟩ | ⟨_, _, -, -, -, step⟩ | ⟨-, step⟩
  · cases step.symm.trans stuck
  · cases step.symm.trans stuck
  · cases step.symm.trans stuck
    rfl

variable {s ahead : Text} {c next : Cursor} {run rest : Bytes}

theorem stands_start (s : Text) : Stands s (.start (Utf8.encode s)) s := ⟨rfl, rfl, rfl⟩

theorem Stands.exists_behind (stands : Stands s c ahead) (letters : ∀ b ∈ run, b ∈ alphabet)
    (parts : c.rest = dot :: (run ++ rest)) :
    ∃ back, ahead = '.' :: (asText run ++ back) ∧ Utf8.encode back = rest := by
  have dotted : Utf8.encode ('.' :: asText run) = dot :: run := by
    rw [Utf8.encode_cons, encode_asText_of_letters letters]
    rfl
  have begun : Utf8.encode ('.' :: asText run) <+: Utf8.encode ahead := by
    rw [dotted, stands.rest, parts]
    exact ⟨rest, rfl⟩
  obtain ⟨back, joined⟩ := Utf8.prefix_of_encode_prefix begun
  refine ⟨back, joined.symm, ?_⟩
  have bytes : dot :: run ++ Utf8.encode back = dot :: run ++ rest := by
    rw [← dotted, ← Utf8.encode_append, joined, stands.rest, parts, dotted]
    rfl
  exact List.append_cancel_left bytes

theorem Stands.size_behind (stands : Stands s c ahead) (letters : ∀ b ∈ run, b ∈ alphabet) :
    Utf8.size (c.shown ++ ['.']) = c.position + 1 ∧
      Utf8.size (c.shown ++ ['.'] ++ asText run) = c.position + 1 + run.length := by
  have dotted : Utf8.size (c.shown ++ ['.']) = c.position + 1 := by
    rw [Utf8.size_append, stands.position]
    rfl
  have length : Utf8.size (asText run) = run.length := by
    rw [Utf8.size, encode_asText_of_letters letters]
  exact ⟨dotted, by rw [Utf8.size_append, dotted, length]⟩

theorem Stands.slice?_eq (stands : Stands s c ahead) (letters : ∀ b ∈ run, b ∈ alphabet)
    (parts : c.rest = dot :: (run ++ rest)) :
    Utf8.slice? s (c.position + 1) (c.position + 1 + run.length) = some (asText run) := by
  obtain ⟨back, behind, -⟩ := stands.exists_behind letters parts
  obtain ⟨dotted, named⟩ := stands.size_behind letters
  rw [Utf8.slice?_eq_some_iff]
  refine ⟨c.shown ++ ['.'], back, ?_, dotted, named⟩
  rw [stands.whole, behind]
  simp

theorem Stands.advance (stands : Stands s c ahead) (stepped : c.step = .advanced next) :
    ∃ back, Stands s next back := by
  obtain ⟨name, rest, named, parts, rfl⟩ := exists_of_step_eq_advanced stepped
  obtain ⟨back, behind, left⟩ := stands.exists_behind named.2 parts
  have written : shown ⟨c.position + 1 + name.length, rest, classOf name :: c.atoms⟩ =
      c.shown ++ ['.'] ++ asText name := by
    rw [shown, List.reverse_cons, Atom.renderAll, List.flatMap_append]
    simp [shown, Atom.renderAll, classOf]
  refine ⟨back, ?_, ?_, left⟩
  · rw [stands.whole, behind, written]
    simp
  · rw [written]
    exact (stands.size_behind named.2).2

theorem Stands.encode_eq (stands : Stands s c ahead) :
    Utf8.encode s = Utf8.encode c.shown ++ c.rest := by
  rw [stands.whole, Utf8.encode_append, stands.rest]

theorem Stands.take_eq (stands : Stands s c ahead) :
    (Utf8.encode s).take c.position = Utf8.encode c.shown := by
  rw [stands.encode_eq, ← stands.position]
  exact List.take_left

theorem Stands.drop_eq (stands : Stands s c ahead) :
    (Utf8.encode s).drop c.position = c.rest := by
  rw [stands.encode_eq, ← stands.position]
  exact List.drop_left

theorem Stands.size_eq (stands : Stands s c ahead) :
    Utf8.size s = c.position + c.rest.length := by
  rw [Utf8.size, stands.encode_eq, List.length_append, ← stands.position]
  rfl

theorem Stands.step_eq (stands : Stands s c ahead) {more : Bytes} (dotted : c.rest = dot :: more) :
    c.nameEnd ≤ Utf8.size s ∧
    ∃ name, Utf8.slice? s (c.position + 1) c.nameEnd = some name ∧
      c.step = if name = [] then .stuck c.position
        else .advanced ⟨c.nameEnd, (Utf8.encode s).drop c.nameEnd, .ofClass name :: c.atoms⟩ := by
  have letters : ∀ b ∈ more.takeWhile isNameByte, b ∈ alphabet := fun b member =>
    mem_alphabet_iff.mpr (List.mem_takeWhile_imp member)
  have parts : c.rest = dot :: (more.takeWhile isNameByte ++ more.dropWhile isNameByte) := by
    rw [List.takeWhile_append_dropWhile, dotted]
  have ends : c.nameEnd = c.position + 1 + (more.takeWhile isNameByte).length := by
    rw [nameEnd, dotted, List.tail_cons]
  have sliced := stands.slice?_eq letters parts
  rw [← ends] at sliced
  constructor
  · rw [stands.size_eq, parts, ends, List.length_cons, List.length_append]
    omega
  refine ⟨asText (more.takeWhile isNameByte), sliced, ?_⟩
  rcases c.step_cases with ⟨empty, -⟩ | ⟨name, rest, named, closed, same, step⟩ | ⟨none, step⟩
  · rw [dotted] at empty
    cases empty
  · rw [dotted, List.cons.injEq] at same
    have taken : more.takeWhile isNameByte = name := by
      rw [same.2]
      exact named.takeWhile_append closed
    have left : (Utf8.encode s).drop c.nameEnd = rest := by
      rw [ends, taken, Nat.add_assoc, ← List.drop_drop, stands.drop_eq, dotted, same.2,
        Nat.add_comm, List.drop_succ_cons]
      exact List.drop_left
    have filled : asText name ≠ [] := by
      intro empty
      exact named.1 (List.map_eq_nil_iff.mp empty)
    rw [step, taken, if_neg filled, left, ends, taken]
    rfl
  · have empty : more.takeWhile isNameByte = [] := by
      by_contra filled
      refine none _ ⟨filled, letters⟩ ?_
      rw [parts]
      exact List.prefix_append ..
    rw [step, empty]
    rfl

end Cursor

open Cursor

variable {s : Text} {n : Nat} {c : Cursor}

theorem Reached.exists_stands (reached : Reached s n c) : ∃ ahead, Stands s c ahead := by
  induction reached with
  | start => exact ⟨s, stands_start s⟩
  | advanced reached stepped ih =>
    obtain ⟨ahead, stands⟩ := ih
    exact stands.advance stepped

theorem position_of_step {next : Cursor} (stepped : c.step = .advanced next) :
    c.position + 2 ≤ next.position := by
  obtain ⟨name, rest, named, -, rfl⟩ := exists_of_step_eq_advanced stepped
  have filled := List.length_pos_iff.mpr named.1
  simp only
  omega

theorem Reached.two_mul_le (reached : Reached s n c) : 2 * n ≤ c.position := by
  induction reached with
  | start => exact Nat.zero_le _
  | advanced reached stepped ih =>
    have further := position_of_step stepped
    omega

theorem Reached.sound (reached : Reached s n c) : Sound s n c := by
  obtain ⟨ahead, stands⟩ := reached.exists_stands
  have within : c.position ≤ Utf8.size s := by
    rw [stands.size_eq]
    exact Nat.le_add_right ..
  refine ⟨within, ?_, ?_, stands.drop_eq.symm, reached.two_mul_le.trans within,
    fun _ => stands.step_eq, fun _ => eq_position_of_stuck, ?_⟩
  · exact Utf8.isBoundary_iff.mpr ⟨c.shown, ahead, stands.whole, stands.position⟩
  · exact stands.take_eq.symm
  · intro next stepped
    have further := position_of_step stepped
    omega

theorem Reached.exists_last (reached : Reached s n c) : ∃ m last, Reached s m last ∧
    (last.step = .finished last.atoms.reverse ∧ c.run = .ok last.atoms.reverse ∨
      last.step = .stuck last.position ∧ c.run = .error last.position) := by
  induction size : c.rest.length using Nat.strongRecOn generalizing n c with
  | ind length ih =>
    rcases c.step_cases with ⟨-, step⟩ | ⟨name, rest, -, -, -, step⟩ | ⟨-, step⟩
    · exact ⟨n, c, reached, .inl ⟨step, run_of_finished step⟩⟩
    · have shorter := rest_length_lt_of_step step
      rw [size] at shorter
      obtain ⟨m, last, still, ends⟩ := ih _ shorter (.advanced reached step) rfl
      rw [run_of_advanced step]
      exact ⟨m, last, still, ends⟩
    · exact ⟨n, c, reached, .inr ⟨step, run_of_stuck step⟩⟩

/-- Every cursor that a scan comes to is sound, and the last of them tells what the scan comes to.
-/
theorem reached_sound (s : Text) :
    (∀ n c, Reached s n c → Sound s n c) ∧
    ∃ n last, Reached s n last ∧ 2 * n ≤ Utf8.size s ∧
      (last.step = .finished last.atoms.reverse ∧ scan s = .ok last.atoms.reverse ∨
        last.step = .stuck last.position ∧
          scan s = .error (.invalid (some last.position))) := by
  refine ⟨fun n c reached => reached.sound, ?_⟩
  obtain ⟨n, last, reached, ends⟩ := Reached.exists_last (.start (s := s))
  refine ⟨n, last, reached, reached.sound.counted, ?_⟩
  rcases ends with ⟨step, ran⟩ | ⟨step, ran⟩
  · exact .inl ⟨step, by rw [scan, ran]⟩
  · exact .inr ⟨step, by rw [scan, ran]⟩

/-- Two steps lead to a letter past ASCII right behind a name. -/
theorem reached_sound_accented :
    Reached ".a.bé".toList 2 ⟨4, [0xC3, 0xA9], [.ofClass ['b'], .ofClass ['a']]⟩ ∧
    Sound ".a.bé".toList 2 ⟨4, [0xC3, 0xA9], [.ofClass ['b'], .ofClass ['a']]⟩ := by
  have first : Reached ".a.bé".toList 1 ⟨2, [46, 98, 0xC3, 0xA9], [.ofClass ['a']]⟩ :=
    .advanced .start (by rfl)
  have second : Reached ".a.bé".toList 2
      ⟨4, [0xC3, 0xA9], [.ofClass ['b'], .ofClass ['a']]⟩ :=
    .advanced first (by rfl)
  exact ⟨second, (reached_sound _).1 2 _ second⟩

end ClassQuery.Abbreviation
