import ClassQuery.Proofs.Sink.Filling
import ClassQuery.Search

/-!
Handing hits on, one after the other, and searches whose output fills up.

A search whose hits are all taken ends with the state that they leave and counts them; a search that
has a hit refused ends there, with the hits before it counted and nothing of what comes after it
handed on. Main statement: the output is the beginning of what a search without a limit puts out,
the search succeeds exactly when all of it fits, and else the report is that of the first hit that
does not fit whole, after which no hit is written.
-/

set_option autoImplicit false
set_option relaxedAutoImplicit false

/-! ### Handing hits on -/

namespace ClassQuery.Search

variable {σ : Type} {take : σ → Hit → σ × Option Report}

/-- All of some hits are taken, from one state to another. -/
inductive Takes (take : σ → Hit → σ × Option Report) : σ → List Hit → σ → Prop where
  | nil (s : σ) : Takes take s [] s
  | cons {s t u : σ} {h : Hit} {rest : List Hit} (taken : take s h = (t, none))
      (more : Takes take t rest u) : Takes take s (h :: rest) u

/-- Writes down each hit that is handed on, whether or not it is taken. -/
def watched (take : σ → Hit → σ × Option Report) (s : List Hit × σ) (h : Hit) :
    (List Hit × σ) × Option Report :=
  let taken := take s.2 h
  ((s.1 ++ [h], taken.1), taken.2)

def seeing (seen : List Hit) (s : Search σ) : Search (List Hit × σ) :=
  ⟨s.count, s.noted, (seen, s.sink), s.report⟩

private theorem step_watched (take : σ → Hit → σ × Option Report) (seen : List Hit)
    (s : Search σ) (f : Finding) :
    ∃ more, step (watched take) (s.seeing seen) f = (step take s f).seeing more := by
  obtain ⟨count, noted, sink, report⟩ := s
  cases report with
  | some report => exact ⟨seen, rfl⟩
  | none =>
    cases f with
    | unreadable root path fault => exact ⟨seen, rfl⟩
    | passedOver path fault => exact ⟨seen, rfl⟩
    | hit h =>
      refine ⟨seen ++ [h], ?_⟩
      rcases taken : take sink h with ⟨next, _ | report⟩
      · simp [step, watched, seeing, taken]
      · simp [step, watched, seeing, taken]

theorem through_watched (take : σ → Hit → σ × Option Report) (s : σ) (findings : List Finding) :
    ∃ seen, through (watched take) ([], s) findings = (through take s findings).seeing seen := by
  have run : ∀ (seen : List Hit) (t : Search σ), ∃ more,
      findings.foldl (step (watched take)) (t.seeing seen) =
        (findings.foldl (step take) t).seeing more := by
    induction findings with
    | nil => exact fun seen t => ⟨seen, rfl⟩
    | cons f rest ih =>
      intro seen t
      obtain ⟨next, stepped⟩ := step_watched take seen t f
      rw [List.foldl_cons, List.foldl_cons, stepped]
      exact ih next (step take t f)
  obtain ⟨seen, ended⟩ := run [] (start s)
  refine ⟨seen, ?_⟩
  have begun : start (([] : List Hit), s) = (start s).seeing [] := rfl
  unfold through
  rw [begun, ended]
  by_cases failed : (findings.foldl (step take) (start s)).report.isSome = true
  · simp [seeing, failed]
  · simp [seeing, failed]

theorem watched_of_refused {seen : List Hit} {s t : σ} {h : Hit} {report : Report}
    (refused : take s h = (t, some report)) :
    watched take (seen, s) h = ((seen ++ [h], t), some report) := by
  simp only [watched, refused]

theorem Takes.watched {s t : σ} {hits : List Hit} (takes : Takes take s hits t) (seen : List Hit) :
    Takes (watched take) (seen, s) hits (seen ++ hits, t) := by
  induction takes generalizing seen with
  | nil s =>
    rw [List.append_nil]
    exact .nil (seen, s)
  | @cons s t u h rest taken more ih =>
    have step : Search.watched take (seen, s) h = ((seen ++ [h], t), none) := by
      simp only [Search.watched, taken]
    have rejoined : seen ++ [h] ++ rest = seen ++ h :: rest := by simp
    exact .cons step (rejoined ▸ ih (seen ++ [h]))

theorem Takes.of_never (never : ∀ s h, (take s h).2 = none) (s : σ) (hits : List Hit) :
    Takes take s hits (hits.foldl (fun s h => (take s h).1) s) := by
  induction hits generalizing s with
  | nil => exact .nil s
  | cons h rest ih => exact .cons (Prod.ext rfl (never s h)) (ih (take s h).1)

private theorem eq_hit_of_hit? {f : Finding} {h : Hit} (kind : f.hit? = some h) : f = .hit h := by
  cases f <;> cases kind
  rfl

private theorem step_of_isSome {s : Search σ} (ended : s.report.isSome = true) (f : Finding) :
    step take s f = s := if_pos ended

private theorem foldl_step_of_isSome {s : Search σ} (ended : s.report.isSome = true)
    (findings : List Finding) : findings.foldl (step take) s = s := by
  induction findings with
  | nil => rfl
  | cons f rest ih => rw [List.foldl_cons, step_of_isSome ended, ih]

private theorem step_of_taken (count : Nat) (noted : List Event) {s t : σ} {h : Hit}
    (taken : take s h = (t, none)) :
    step take ⟨count, noted, s, none⟩ (.hit h) = ⟨count + 1, noted, t, none⟩ := by
  simp [step, taken]

private theorem step_of_refused (count : Nat) (noted : List Event) {s t : σ} {h : Hit}
    {report : Report} (refused : take s h = (t, some report)) :
    step take ⟨count, noted, s, none⟩ (.hit h) = ⟨count, noted, t, some report⟩ := by
  simp [step, refused]

private theorem step_of_no_hit (take : σ → Hit → σ × Option Report) (count : Nat)
    (noted : List Event) (s : σ) {f : Finding} (other : f.hit? = none) :
    ∃ more, step take ⟨count, noted, s, none⟩ f = ⟨count, more, s, none⟩ := by
  cases f with
  | hit h => cases other
  | unreadable root path fault => exact ⟨_, rfl⟩
  | passedOver path fault => exact ⟨_, rfl⟩

theorem foldl_step_of_takes {findings : List Finding} {s t : σ}
    (takes : Takes take s (Finding.hits findings) t) (count : Nat) (noted : List Event) :
    ∃ more, findings.foldl (step take) ⟨count, noted, s, none⟩ =
      ⟨count + (Finding.hits findings).length, more, t, none⟩ := by
  induction findings generalizing s count noted with
  | nil =>
    cases takes
    exact ⟨noted, rfl⟩
  | cons f rest ih =>
    cases kind : f.hit? with
    | none =>
      have same : Finding.hits (f :: rest) = Finding.hits rest := List.filterMap_cons_none kind
      obtain ⟨more, passed⟩ := step_of_no_hit take count noted s kind
      rw [same] at takes ⊢
      rw [List.foldl_cons, passed]
      exact ih takes count more
    | some h =>
      obtain rfl := eq_hit_of_hit? kind
      have split : Finding.hits (.hit h :: rest) = h :: Finding.hits rest := rfl
      rw [split] at takes ⊢
      cases takes with
      | cons taken later =>
        obtain ⟨more, ended⟩ := ih later (count + 1) noted
        refine ⟨more, ?_⟩
        rw [List.foldl_cons, step_of_taken count noted taken, ended, List.length_cons]
        congr 1
        omega

theorem through_of_takes {findings : List Finding} {s t : σ}
    (takes : Takes take s (Finding.hits findings) t) :
    (through take s findings).report = none ∧
      (through take s findings).count = (Finding.hits findings).length ∧
      (through take s findings).sink = t := by
  obtain ⟨more, ended⟩ := foldl_step_of_takes takes 0 []
  unfold through start
  simp [ended]

/-- A search that has a hit refused ends with it: what comes after the hit makes no difference. -/
theorem through_of_refused {findings : List Finding} {before after : List Hit} {h : Hit}
    {s t u : σ} {report : Report} (split : Finding.hits findings = before ++ h :: after)
    (takes : Takes take s before t) (refused : take t h = (u, some report)) :
    (through take s findings).report = some report ∧
      (through take s findings).count = before.length ∧ (through take s findings).sink = u := by
  obtain ⟨front, tail, rfl, same, others⟩ := List.filterMap_eq_append_iff.mp split
  obtain ⟨passed, f, back, rfl, noHits, kind, -⟩ := List.filterMap_eq_cons_iff.mp others
  obtain rfl := eq_hit_of_hit? kind
  have reached : Finding.hits (front ++ passed) = before := by
    have silent : passed.filterMap Finding.hit? = [] := List.filterMap_eq_nil_iff.mpr noHits
    rw [Finding.hits, List.filterMap_append, same, silent, List.append_nil]
  obtain ⟨more, ended⟩ := foldl_step_of_takes (reached.symm ▸ takes) 0 []
  have stopped : (front ++ (passed ++ .hit h :: back)).foldl (step take) (start s) =
      ⟨before.length, more, u, some report⟩ := by
    rw [← List.append_assoc, List.foldl_append, start, ended, reached, List.foldl_cons,
      step_of_refused _ _ refused, foldl_step_of_isSome rfl, Nat.zero_add]
  unfold through
  simp [stopped]

end ClassQuery.Search

/-! ### Output that fills up -/

namespace ClassQuery

namespace Record

variable {format : Format}

/-- The lines of some hits, one behind the other. -/
def bytesOfHits (format : Format) (hits : List Hit) : Bytes :=
  hits.flatMap fun h => (ofHit h).bytes format

theorem bytesOfHits_cons (h : Hit) (rest : List Hit) :
    bytesOfHits format (h :: rest) = (ofHit h).bytes format ++ bytesOfHits format rest :=
  List.flatMap_cons

theorem bytesOfHits_singleton (h : Hit) :
    bytesOfHits format [h] = (ofHit h).bytes format := List.flatMap_singleton ..

theorem bytesOfHits_append (front back : List Hit) :
    bytesOfHits format (front ++ back) = bytesOfHits format front ++ bytesOfHits format back :=
  List.flatMap_append

end Record

namespace Search

open Record (bytesOfHits bytesOfHits_cons bytesOfHits_singleton bytesOfHits_append)

variable {format : Format} {room : Option Nat} {limit : Nat} {complaint : Text}

theorem takes_given {written : Bytes} {hits : List Hit}
    (fits : ∀ limit ∈ room, (written ++ bytesOfHits format hits).length ≤ limit) :
    Takes (put format) (.given room complaint written) hits
      (.given room complaint (written ++ bytesOfHits format hits)) := by
  induction hits generalizing written with
  | nil =>
    rw [bytesOfHits, List.flatMap_nil, List.append_nil]
    exact .nil _
  | cons h rest ih =>
    rw [bytesOfHits_cons, ← List.append_assoc] at fits ⊢
    have first : ∀ limit ∈ room, (written ++ (Record.ofHit h).bytes format).length ≤ limit := by
      intro limit here
      have all := fits limit here
      rw [List.length_append] at all
      omega
    have taken : put format (.given room complaint written) h =
        (.given room complaint (written ++ (Record.ofHit h).bytes format), none) := by
      unfold put
      rw [Record.write_given_of_fits first]
    exact .cons taken (ih fits)

theorem takes_direct (complaint : Text) {hits : List Hit}
    (fits : ∀ limit ∈ room, (bytesOfHits format hits).length ≤ limit) :
    Takes (put format) (.direct room complaint) hits
      (.given room complaint (bytesOfHits format hits)) := by
  have taken : Takes (put format) (.given room complaint []) hits
      (.given room complaint ([] ++ bytesOfHits format hits)) := takes_given fits
  rwa [Sink.given_nil, List.nil_append] at taken

theorem exists_takes {s : Sink} {written : Bytes} (format : Format) (hits : List Hit)
    (accepted : s.Accepted written) :
    ∃ t, Takes (put format) s hits t ∧
      t.Accepted (written ++ bytesOfHits format hits) := by
  induction hits generalizing s written with
  | nil =>
    rw [bytesOfHits, List.flatMap_nil, List.append_nil]
    exact ⟨s, .nil s, accepted⟩
  | cons h rest ih =>
    obtain ⟨t, wrote, first⟩ := (Record.ofHit h).exists_write format accepted
    obtain ⟨u, more, all⟩ := ih first
    have taken : put format s h = (t, none) := by rw [put, wrote]
    refine ⟨u, .cons taken more, ?_⟩
    rwa [bytesOfHits_cons, ← List.append_assoc]

theorem put_given_of_lt (complaint : Text) {written : Bytes} {h : Hit}
    (much : limit < (written ++ (Record.ofHit h).bytes format).length) :
    ∃ sink, put format (.given (some limit) complaint written) h = (sink, some
        ⟨(Record.ofHit h).context format
          (decide ((written ++ (Record.ofHit h).bytes format).length = limit + 1)), [complaint]⟩) ∧
      sink.output = (written ++ (Record.ofHit h).bytes format).take limit := by
  obtain ⟨sink, write, output⟩ := Record.write_given_of_lt complaint much
  refine ⟨sink, ?_, output⟩
  unfold put
  rw [write]

theorem exists_first_overflow {written : Bytes} {hits : List Hit}
    (room : written.length ≤ limit) (much : limit < (written ++ bytesOfHits format hits).length) :
    ∃ before h after, hits = before ++ h :: after ∧
      (written ++ bytesOfHits format before).length ≤ limit ∧
      limit < (written ++ bytesOfHits format (before ++ [h])).length := by
  -- What was written before is general, since each hit that fits is added to it.
  induction hits generalizing written with
  | nil =>
    rw [bytesOfHits, List.flatMap_nil, List.append_nil] at much
    omega
  | cons h rest ih =>
    by_cases first : limit < (written ++ (Record.ofHit h).bytes format).length
    · refine ⟨[], h, rest, rfl, ?_, ?_⟩
      · simpa [bytesOfHits] using room
      · simpa [bytesOfHits] using first
    · rw [bytesOfHits_cons, ← List.append_assoc] at much
      obtain ⟨before, other, after, rfl, fits, exceeds⟩ := ih (by omega) much
      refine ⟨h :: before, other, after, rfl, ?_, ?_⟩
      · rwa [bytesOfHits_cons, ← List.append_assoc]
      · rwa [List.cons_append, bytesOfHits_cons, ← List.append_assoc]

/-- The line of a report on a hit that was refused. -/
def refusal (format : Format) (onlyLineFeed : Bool) (h : Hit) (complaint : Text) : Text :=
  match format, onlyLineFeed with
  | .plain, _ => "failed to write match at ".toList ++ Utf8.decodeLossy h.path ++ [':'] ++
      Text.decimal h.line ++ ": ".toList ++ complaint
  | .json, false => "failed to serialize JSON output: ".toList ++ complaint
  | .json, true => "failed to terminate JSON output with newline: ".toList ++ complaint

theorem line_context (format : Format) (onlyLineFeed : Bool) (h : Hit) (complaint : Text) :
    Report.line ⟨(Record.ofHit h).context format onlyLineFeed, [complaint]⟩ =
      refusal format onlyLineFeed h complaint := by
  have joined : ∀ message, Report.line ⟨message, [complaint]⟩ =
      message ++ ": ".toList ++ complaint := by
    intro message
    rw [Report.line, List.intercalate_cons_cons, List.intercalate_singleton]
  rw [joined]
  cases format <;> cases onlyLineFeed <;> rfl

theorem through_unlimited (format : Format) (complaint : Text) (findings : List Finding) :
    let s := through (watched (put format)) ([], .direct none complaint) findings
    s.report = none ∧ s.sink.1 = Finding.hits findings ∧
      s.sink.2.output = bytesOfHits format (Finding.hits findings) := by
  intro s
  have taken : Takes (put format) (.direct none complaint) (Finding.hits findings)
      (.given none complaint (bytesOfHits format (Finding.hits findings))) :=
    takes_direct complaint (by simp)
  obtain ⟨report, -, sink⟩ := through_of_takes (taken.watched [])
  refine ⟨report, ?_, ?_⟩
  · rw [show s.sink = _ from sink, List.nil_append]
  · rw [show s.sink = _ from sink, Sink.output_given_none]

theorem run_of_fits (complaint : Text) {findings : List Finding}
    (fits : (bytesOfHits format (Finding.hits findings)).length ≤ limit) :
    let s := run format (.direct (some limit) complaint) findings
    s.report = none ∧ s.count = (Finding.hits findings).length ∧
      s.sink.output = (bytesOfHits format (Finding.hits findings)).take limit := by
  intro s
  have taken : Takes (put format) (.direct (some limit) complaint) (Finding.hits findings)
      (.given (some limit) complaint (bytesOfHits format (Finding.hits findings))) :=
    takes_direct complaint (by simpa using fits)
  obtain ⟨report, count, sink⟩ := through_of_takes taken
  refine ⟨report, count, ?_⟩
  rw [show s.sink = _ from sink, Sink.output_given_some]

theorem run_of_overflow (complaint : Text) {findings : List Finding} {before after : List Hit}
    {h : Hit} (split : Finding.hits findings = before ++ h :: after)
    (room : (bytesOfHits format before).length ≤ limit)
    (exceeds : limit < (bytesOfHits format (before ++ [h])).length) :
    let s := run format (.direct (some limit) complaint) findings
    s.report = some ⟨(Record.ofHit h).context format
        (decide ((bytesOfHits format (before ++ [h])).length = limit + 1)), [complaint]⟩ ∧
      s.sink.output = (bytesOfHits format (Finding.hits findings)).take limit ∧
      (through (watched (put format)) ([], .direct (some limit) complaint) findings).sink.1 =
        before ++ [h] := by
  intro s
  have bytes : bytesOfHits format (before ++ [h]) =
      bytesOfHits format before ++ (Record.ofHit h).bytes format := by
    rw [bytesOfHits_append, bytesOfHits_singleton]
  have begins : bytesOfHits format (Finding.hits findings) =
      bytesOfHits format (before ++ [h]) ++ bytesOfHits format after := by
    rw [split, ← bytesOfHits_append, List.append_assoc, List.singleton_append]
  obtain ⟨sink, refused, output⟩ := put_given_of_lt complaint (bytes ▸ exceeds)
  rw [← bytes] at refused output
  have taken : Takes (put format) (.direct (some limit) complaint) before
      (.given (some limit) complaint (bytesOfHits format before)) :=
    takes_direct complaint (by simpa using room)
  obtain ⟨report, -, last⟩ :=
    through_of_refused split (taken.watched []) (watched_of_refused refused)
  obtain ⟨seen, watching⟩ := through_watched (put format) (.direct (some limit) complaint) findings
  rw [watching] at report last ⊢
  obtain ⟨handed, ended⟩ := Prod.mk.inj last
  refine ⟨report, ?_, handed⟩
  rw [show s.sink = sink from ended, output, begins]
  exact (List.take_append_of_le_length (by omega)).symm

/-- A search into a sink that takes a limited number of bytes leaves the beginning of what a search
without a limit puts out. It succeeds, with all hits counted, exactly when everything fits. Else the
report is that of the first hit that does not fit whole, and no later hit is handed on. -/
theorem run_limited (format : Format) (limit : Nat) (complaint : Text) (q : Query)
    (look : Bytes → Except Path.Fault Node) (roots : List Bytes) :
    let findings := Finding.ofRoots q look roots
    let hits := Finding.hits findings
    let free := through (watched (put format)) ([], .direct none complaint) findings
    let s := run format (.direct (some limit) complaint) findings
    (free.report = none ∧ free.sink.1 = hits ∧ free.sink.2.output = bytesOfHits format hits) ∧
    s.sink.output = (bytesOfHits format hits).take limit ∧
    (s.report = none ∧ s.count = hits.length ↔ (bytesOfHits format hits).length ≤ limit) ∧
    (limit < (bytesOfHits format hits).length → ∃ before h after, hits = before ++ h :: after ∧
      (bytesOfHits format before).length ≤ limit ∧
      limit < (bytesOfHits format (before ++ [h])).length ∧
      s.report.map Report.line = some (refusal format
        (decide ((bytesOfHits format (before ++ [h])).length = limit + 1)) h complaint) ∧
      (through (watched (put format)) ([], .direct (some limit) complaint) findings).sink.1 =
        before ++ [h]) := by
  intro findings hits free s
  refine ⟨through_unlimited format complaint findings, ?_⟩
  by_cases fits : (bytesOfHits format hits).length ≤ limit
  · obtain ⟨report, count, output⟩ := run_of_fits complaint fits
    exact ⟨output, iff_of_true ⟨report, count⟩ fits, fun much => absurd fits (by omega)⟩
  · have much : limit < ([] ++ bytesOfHits format hits).length := by
      rw [List.nil_append]
      omega
    obtain ⟨before, h, after, split, room, exceeds⟩ :=
      exists_first_overflow (Nat.zero_le limit) much
    rw [List.nil_append] at room exceeds
    obtain ⟨report, output, handed⟩ := run_of_overflow complaint split room exceeds
    have failed : s.report = some _ := report
    refine ⟨output, iff_of_false ?_ fits,
      fun _ => ⟨before, h, after, split, room, exceeds, ?_, handed⟩⟩
    · intro ⟨success, _⟩
      rw [failed] at success
      cases success
    · rw [failed, Option.map_some, line_context]

/-- The second of two hits is cut: in its plain line, in its JSON object, and at the line feed
behind the object. -/
theorem run_limited_of_cut :
    let q : Query := ⟨["a".toList], "className=(?=.*?a).*".toList⟩
    let look := fun _ => .ok (.file (Utf8.ofString "className=a\nclassName=ba"))
    let search (format : Format) (limit : Nat) := run format
      (.direct (some limit) "disk full".toList) (Finding.ofRoots q look [Utf8.ofString "f"])
    let first := "\x7b\"path\":\"f\",\"line\":1,\"text\":\"className=a\"\x7d\n"
    ((search .plain 20).sink.output = Utf8.ofString "f:1: className=a\nf:2" ∧
      (search .plain 20).report.map Report.line =
        some "failed to write match at f:2: disk full".toList) ∧
    ((search .json 51).sink.output = Utf8.ofString (first ++ "\x7b\"path\":") ∧
      (search .json 51).report.map Report.line =
        some "failed to serialize JSON output: disk full".toList) ∧
    ((search .json 86).sink.output = Utf8.ofString
        (first ++ "\x7b\"path\":\"f\",\"line\":2,\"text\":\"className=ba\"\x7d") ∧
      (search .json 86).report.map Report.line =
        some "failed to terminate JSON output with newline: disk full".toList) := by
  intro q look search first
  let one : Hit := ⟨Utf8.ofString "f", 1, "className=a".toList⟩
  let two : Hit := ⟨Utf8.ofString "f", 2, "className=ba".toList⟩
  have hits : Finding.hits (Finding.ofRoots q look [Utf8.ofString "f"]) = [one, two] := by
    decide +kernel
  have cut (format : Format) (limit : Nat) (room : (bytesOfHits format [one]).length ≤ limit)
      (much : limit < (bytesOfHits format [one, two]).length) :
      (search format limit).sink.output = (bytesOfHits format [one, two]).take limit ∧
        (search format limit).report.map Report.line = some (refusal format
          (decide ((bytesOfHits format [one, two]).length = limit + 1)) two
            "disk full".toList) := by
    obtain ⟨-, output, -, overflow⟩ :=
      run_limited format limit "disk full".toList q look [Utf8.ofString "f"]
    rw [hits] at output overflow
    obtain ⟨before, h, after, split, -, exceeds, report, -⟩ := overflow much
    have blamed : before = [one] ∧ h = two := by
      cases before with
      | nil =>
        obtain ⟨rfl, -⟩ := List.cons.inj split
        exact absurd room (Nat.not_le_of_lt exceeds)
      | cons other before =>
        obtain ⟨rfl, rest⟩ := List.cons.inj split
        cases before with
        | nil => exact ⟨rfl, (List.cons.inj rest).1.symm⟩
        | cons => exact absurd (List.cons.inj rest).2 (by simp)
    obtain ⟨rfl, rfl⟩ := blamed
    exact ⟨output, report⟩
  obtain ⟨plain, blamed⟩ := cut .plain 20 (by decide +kernel) (by decide +kernel)
  obtain ⟨object, broken⟩ := cut .json 51 (by decide +kernel) (by decide +kernel)
  obtain ⟨whole, open_⟩ := cut .json 86 (by decide +kernel) (by decide +kernel)
  rw [plain, blamed, object, broken, whole, open_]
  decide +kernel

end Search

end ClassQuery
