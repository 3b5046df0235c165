import ClassQuery.Text.Utf8

/-!
Sinks: where output goes, until it is full.

A sink passes bytes on to a device that may have room for a limited number of them. A write takes
what still fits; once something does not fit the sink is broken and takes nothing more. A sink may
hold bytes back until a line is complete or its buffer is full.
-/

set_option autoImplicit false
set_option relaxedAutoImplicit false

namespace ClassQuery

structure Sink where
  /-- How many more bytes the device takes; without a number it takes any. -/
  room : Option Nat
  /-- How many bytes the buffer holds; with zero nothing is held back. -/
  capacity : Nat
  /-- What is said of the device once it takes nothing more. -/
  complaint : Text
  /-- The bytes that reached the device, newest first. -/
  delivered : Bytes
  /-- The bytes in the buffer, newest first. -/
  held : Bytes
  /-- Whether something did not fit. -/
  broken : Bool

namespace Sink

/-- An empty sink without a buffer that takes a limited number of bytes, or any. -/
def direct (room : Option Nat) (complaint : Text) : Sink := ⟨room, 0, complaint, [], [], false⟩

def fullDevice : Sink :=
  ⟨some 0, 1024, "No space left on device (os error 28)".toList, [], [], false⟩

def output (s : Sink) : Bytes := s.delivered.reverse

def deliver (s : Sink) (bytes : Bytes) : Sink :=
  if s.broken then s
  else match s.room with
    | none => { s with delivered := bytes.reverse ++ s.delivered }
    | some room =>
      let fitting := bytes.take room
      { s with
        room := some (room - fitting.length)
        delivered := fitting.reverse ++ s.delivered
        broken := fitting.length < bytes.length }

def flush (s : Sink) : Sink := { s.deliver s.held.reverse with held := [] }

/-- Puts bytes of an unfinished line into the buffer, which is passed on first when they do not
fit beside what it holds. Bytes that could fill the buffer alone are passed on as well. -/
def hold (s : Sink) (bytes : Bytes) : Sink :=
  let s := if s.capacity < s.held.length + bytes.length then s.flush else s
  if s.capacity ≤ bytes.length then s.deliver bytes
  else { s with held := bytes.reverse ++ s.held }

/-- Writes bytes. A sink with a buffer passes on all lines that they complete. -/
def write (s : Sink) (bytes : Bytes) : Sink :=
  let tail := (bytes.reverse.takeWhile (· ≠ 10)).reverse
  let lines := bytes.take (bytes.length - tail.length)
  if s.broken then s
  else if lines.isEmpty then s.hold tail
  else ((s.flush).deliver lines).hold tail

def writeAll (s : Sink) (pieces : List Bytes) : Sink := pieces.foldl write s

/-- A sink that holds nothing back delivers what is written at once. -/
def IsDirect (s : Sink) : Prop := s.capacity = 0 ∧ s.held = []

theorem isDirect_direct (room : Option Nat) (complaint : Text) : (direct room complaint).IsDirect :=
  ⟨rfl, rfl⟩

theorem IsDirect.deliver {s : Sink} (h : s.IsDirect) (bytes : Bytes) :
    (s.deliver bytes).IsDirect := by
  unfold Sink.deliver
  repeat' split
  all_goals exact h

theorem deliver_nil (s : Sink) : s.deliver [] = s := by
  obtain ⟨room, capacity, complaint, delivered, held, broken⟩ := s
  cases broken <;> cases room <;> simp [deliver]

theorem deliver_deliver (s : Sink) (a b : Bytes) :
    (s.deliver a).deliver b = s.deliver (a ++ b) := by
  obtain ⟨room, capacity, complaint, delivered, held, broken⟩ := s
  cases broken with
  | true => simp [deliver]
  | false =>
    cases room with
    | none => simp [deliver]
    | some room =>
      by_cases h : a.length ≤ room
      · simp [deliver, List.take_append, List.take_of_length_le h]
        omega
      · have hl : min room a.length < a.length := by omega
        have hd : room - a.length = 0 := by omega
        simp [deliver, hl, hd, List.take_append]
        omega

theorem IsDirect.flush {s : Sink} (h : s.IsDirect) : s.flush = s := by
  obtain ⟨room, capacity, complaint, delivered, held, broken⟩ := s
  obtain ⟨hc, hh⟩ := h
  simp only at hc hh
  subst hc hh
  simp [Sink.flush, deliver_nil]

theorem IsDirect.hold {s : Sink} (h : s.IsDirect) (bytes : Bytes) :
    s.hold bytes = s.deliver bytes := by
  simp only [Sink.hold, h.flush, ite_self, h.1, Nat.zero_le, if_true]

/-- The lines that bytes complete and the unfinished one behind them are all of the bytes. -/
theorem take_append_tail (bytes : Bytes) :
    let tail := (bytes.reverse.takeWhile (· ≠ 10)).reverse
    bytes.take (bytes.length - tail.length) ++ tail = bytes := by
  intro tail
  have suffix : tail <:+ bytes := by
    rw [← List.reverse_prefix, List.reverse_reverse]
    exact List.takeWhile_prefix _
  obtain ⟨front, joined⟩ := suffix
  rw [← joined, List.length_append, Nat.add_sub_cancel_right, List.take_left]

theorem IsDirect.write {s : Sink} (h : s.IsDirect) (bytes : Bytes) :
    s.write bytes = s.deliver bytes := by
  have joined := take_append_tail bytes
  unfold Sink.write
  generalize (bytes.reverse.takeWhile (· ≠ 10)).reverse = tail at joined
  simp only at joined ⊢
  split
  · next broken => simp [Sink.deliver, broken]
  · split
    · next empty =>
      rw [List.isEmpty_iff] at empty
      rw [empty, List.nil_append] at joined
      rw [h.hold, joined]
    · rw [h.flush, (h.deliver _).hold, deliver_deliver, joined]

end Sink

end ClassQuery
