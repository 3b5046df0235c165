import ClassQuery.Record

/-!
Sinks that fill up, and sinks that take everything.

A sink without a buffer that takes a limited number of bytes holds the beginning of what was
written, and is broken once more was written than it takes. A sink that takes everything may still
hold bytes back, so what was written to it is partly with the device and partly in its buffer, and a
flush brings it all to the device. Main statements: a record either fits behind what was written
before or is refused, and the report tells whether only its line feed was too much; a sink that
takes everything takes a record, whatever the size of its buffer.
-/

set_option autoImplicit false
set_option relaxedAutoImplicit false

/-! ### A limited number of bytes -/

namespace ClassQuery

namespace Sink

/-- A sink that takes a limited number of bytes, or any, after some bytes were written. -/
def given (room : Option Nat) (complaint : Text) (written : Bytes) : Sink :=
  (direct room complaint).deliver written

variable {room : Option Nat} {limit : Nat} {complaint : Text}

theorem given_nil : given room complaint [] = direct room complaint := deliver_nil _

theorem isDirect_given (written : Bytes) : (given room complaint written).IsDirect :=
  (isDirect_direct room complaint).deliver written

theorem deliver_given (written bytes : Bytes) :
    (given room complaint written).deliver bytes = given room complaint (written ++ bytes) :=
  deliver_deliver _ written bytes

theorem output_given_none (written : Bytes) : (given none complaint written).output = written := by
  simp [given, direct, deliver, output]

theorem output_given_some (written : Bytes) :
    (given (some limit) complaint written).output = written.take limit := by
  simp [given, direct, deliver, output]

theorem broken_given_iff (written : Bytes) :
    (given room complaint written).broken = true ↔ ∃ limit ∈ room, limit < written.length := by
  cases room with
  | none => simp [given, direct, deliver]
  | some limit =>
    simp only [given, direct, deliver, Bool.false_eq_true, if_false, List.length_take,
      decide_eq_true_eq, Option.mem_some_iff, exists_eq_left']
    omega

theorem complaint_given (written : Bytes) :
    (given room complaint written).complaint = complaint := by
  cases room <;> rfl

theorem IsDirect.writeAll {s : Sink} (h : s.IsDirect) (pieces : List Bytes) :
    s.writeAll pieces = s.deliver pieces.flatten := by
  induction pieces generalizing s with
  | nil => exact (deliver_nil s).symm
  | cons piece rest ih =>
    have first : s.writeAll (piece :: rest) = (s.deliver piece).writeAll rest := by
      rw [Sink.writeAll, List.foldl_cons, h.write]
      rfl
    rw [first, ih (h.deliver piece), deliver_deliver, List.flatten_cons]

end Sink

namespace Record

variable {room : Option Nat} {limit : Nat} {complaint : Text}

def body (r : Record) (format : Format) : Bytes := (r.pieces format).flatMap Utf8.encode

theorem bytes_eq (r : Record) (format : Format) : r.bytes format = r.body format ++ [10] := rfl

private theorem writeAll_pieces {s : Sink} (h : s.IsDirect) (r : Record) (format : Format) :
    s.writeAll ((r.pieces format).map Utf8.encode) = s.deliver (r.body format) := by
  rw [h.writeAll, body, List.flatMap_def]

theorem write_given (r : Record) (format : Format) (written : Bytes) :
    r.write format (.given room complaint written) =
      if ∃ limit ∈ room, limit < (written ++ r.body format).length then
        ⟨.given room complaint (written ++ r.body format),
          some ⟨r.context format false, [complaint]⟩⟩
      else if ∃ limit ∈ room, limit < (written ++ r.bytes format).length then
        ⟨.given room complaint (written ++ r.bytes format),
          some ⟨r.context format true, [complaint]⟩⟩
      else ⟨.given room complaint (written ++ r.bytes format), none⟩ := by
  unfold write
  rw [writeAll_pieces (Sink.isDirect_given written), Sink.deliver_given]
  simp only [(Sink.isDirect_given _).write, Sink.deliver_given, Sink.broken_given_iff,
    Sink.complaint_given, bytes_eq, List.append_assoc]
  rfl

theorem write_given_of_fits {r : Record} {format : Format} {written : Bytes}
    (fits : ∀ limit ∈ room, (written ++ r.bytes format).length ≤ limit) :
    r.write format (.given room complaint written) =
      ⟨.given room complaint (written ++ r.bytes format), none⟩ := by
  have whole : ¬ ∃ limit ∈ room, limit < (written ++ r.bytes format).length :=
    fun ⟨limit, here, much⟩ => absurd (fits limit here) (by omega)
  have body : ¬ ∃ limit ∈ room, limit < (written ++ r.body format).length := by
    rintro ⟨limit, here, much⟩
    refine whole ⟨limit, here, ?_⟩
    rw [bytes_eq, ← List.append_assoc, List.length_append]
    omega
  rw [write_given, if_neg body, if_neg whole]

/-- A record that does not fit is written as far as it does. -/
theorem write_given_of_lt (complaint : Text) {r : Record} {format : Format} {written : Bytes}
    (much : limit < (written ++ r.bytes format).length) :
    ∃ sink, r.write format (.given (some limit) complaint written) =
        ⟨sink, some ⟨r.context format (decide ((written ++ r.bytes format).length = limit + 1)),
          [complaint]⟩⟩ ∧
      sink.output = (written ++ r.bytes format).take limit := by
  have oneMore : (written ++ r.bytes format).length = (written ++ r.body format).length + 1 := by
    rw [bytes_eq, ← List.append_assoc, List.length_append, List.length_singleton]
  rw [write_given]
  simp only [Option.mem_some_iff, exists_eq_left']
  by_cases early : limit < (written ++ r.body format).length
  · have rest : ¬ (written ++ r.bytes format).length = limit + 1 := by omega
    refine ⟨_, by rw [if_pos early, decide_eq_false rest], ?_⟩
    rw [Sink.output_given_some, bytes_eq, ← List.append_assoc]
    exact (List.take_append_of_le_length (by omega)).symm
  · have only : (written ++ r.bytes format).length = limit + 1 := by omega
    refine ⟨_, by rw [if_neg early, if_pos much, decide_eq_true only], ?_⟩
    exact Sink.output_given_some _

theorem output_write_direct (r : Record) (format : Format) (complaint : Text) :
    (r.write format (.direct none complaint)).sink.output = r.bytes format := by
  rw [← Sink.given_nil, write_given_of_fits (by simp), Sink.output_given_none, List.nil_append]

end Record

/-! ### Any number of bytes -/

/-- A sink takes any bytes, and was given these until now. -/
structure Sink.Accepted (s : Sink) (written : Bytes) : Prop where
  roomy : s.room = none
  sound : s.broken = false
  whole : s.output ++ s.held.reverse = written

namespace Sink.Accepted

variable {s : Sink} {written : Bytes}

private theorem deliver_eq (accepted : s.Accepted written) (bytes : Bytes) :
    s.deliver bytes = { s with delivered := bytes.reverse ++ s.delivered } := by
  simp [Sink.deliver, accepted.sound, accepted.roomy]

theorem deliver (accepted : s.Accepted written) (empty : s.held = []) (bytes : Bytes) :
    (s.deliver bytes).Accepted (written ++ bytes) := by
  have whole := accepted.whole
  rw [empty, List.reverse_nil, List.append_nil] at whole
  rw [accepted.deliver_eq]
  refine ⟨accepted.roomy, accepted.sound, ?_⟩
  simp [output, empty, ← whole]

theorem output_flush (accepted : s.Accepted written) : s.flush.output = written := by
  rw [← accepted.whole, Sink.flush, accepted.deliver_eq]
  simp [output]

theorem flush (accepted : s.Accepted written) : s.flush.Accepted written := by
  have output := accepted.output_flush
  rw [Sink.flush, accepted.deliver_eq] at output ⊢
  refine ⟨accepted.roomy, accepted.sound, ?_⟩
  rw [List.reverse_nil, List.append_nil]
  exact output

theorem hold (accepted : s.Accepted written) (bytes : Bytes) :
    (s.hold bytes).Accepted (written ++ bytes) := by
  have held {t : Sink} (accepted : t.Accepted written)
      (room : t.capacity ≤ bytes.length → t.held = []) :
      (if t.capacity ≤ bytes.length then t.deliver bytes
        else { t with held := bytes.reverse ++ t.held }).Accepted (written ++ bytes) := by
    split
    · next long => exact accepted.deliver (room long) bytes
    · refine ⟨accepted.roomy, accepted.sound, ?_⟩
      rw [← accepted.whole]
      simp [output]
  rw [Sink.hold]
  split
  · exact held accepted.flush fun _ => rfl
  · next fits =>
    refine held accepted fun long => ?_
    rw [← List.length_eq_zero_iff]
    omega

theorem write (accepted : s.Accepted written) (bytes : Bytes) :
    (s.write bytes).Accepted (written ++ bytes) := by
  have joined := take_append_tail bytes
  rw [Sink.write]
  generalize (bytes.reverse.takeWhile (· ≠ 10)).reverse = tail at joined
  simp only [accepted.sound, Bool.false_eq_true, if_false] at joined ⊢
  split
  · next empty =>
    rw [List.isEmpty_iff] at empty
    rw [empty, List.nil_append] at joined
    rw [joined]
    exact accepted.hold bytes
  · have all := (accepted.flush.deliver rfl (bytes.take (bytes.length - tail.length))).hold tail
    rwa [List.append_assoc, joined] at all

theorem writeAll (accepted : s.Accepted written) (pieces : List Bytes) :
    (s.writeAll pieces).Accepted (written ++ pieces.flatten) := by
  induction pieces generalizing s written with
  | nil =>
    rw [List.flatten_nil, List.append_nil]
    exact accepted
  | cons piece rest ih =>
    rw [List.flatten_cons, ← List.append_assoc]
    exact ih (accepted.write piece)

theorem output_eq_nil (accepted : s.Accepted []) : s.output = [] :=
  (List.append_eq_nil_iff.mp accepted.whole).1

end Sink.Accepted

variable {s : Sink} {written : Bytes}

theorem Record.exists_write (r : Record) (format : Format) (accepted : s.Accepted written) :
    ∃ t, r.write format s = ⟨t, none⟩ ∧ t.Accepted (written ++ r.bytes format) := by
  have body := accepted.writeAll ((r.pieces format).map Utf8.encode)
  have line := body.write [10]
  rw [← List.flatMap_def, List.append_assoc] at line
  refine ⟨_, ?_, line⟩
  simp [Record.write, body.sound, line.sound]

end ClassQuery
