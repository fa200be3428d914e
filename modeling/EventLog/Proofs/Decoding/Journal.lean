import EventLog.Decoder

/-!
# Runs, act by act

A run deals with two parties that may fail, a source and a sink, and reads lines that it may have to
refuse.  Its *journal* lists what it does in order of time: it asks the source (`Act.pull`), refuses
the line it was given (`Act.refuse`), hands an event to the sink (`Act.call`).

* `Journal.Explains` says what a journal has to do with the outcome of a run: the source and the
  sink saw what it notes and nothing else; no act follows one that failed; the result and all that
  was counted are told by the acts.
* `run_explained`: in every format, with every sink and from every source, the journal of a run
  explains its outcome.

A run that is under way may go on in eight ways, the rules of `Course`.  All that is proved about
runs is proved by induction over these.
-/

namespace EventLog

/-! ### Acts -/

/-- One thing that a run does. -/
inductive Act where
  /-- Asks the source, which gives a line or fails, or is at its end. -/
  | pull (answer : Option (Except EventError Text))
  /-- Refuses the line it was given last. -/
  | refuse (fault : EventError)
  /-- Hands an event to the sink, which takes it or fails. -/
  | call (e : Event) (answer : Except EventError Unit)

namespace Act

/-- The error that an act ended in. -/
def failure? : Act → Option EventError
  | pull (some (.error e)) => some e
  | refuse e               => some e
  | call _ (.error e)      => some e
  | _                      => none

/-- The error of a run that an act ends, at a line: what the source failed with stands alone. -/
def report? (format : Text) (line : Nat) : Act → Option EventError
  | pull (some (.error e))         => some e
  | refuse e | call _ (.error e)   => some (.decode format line e)
  | _                              => none

theorem report?_of_ne_pull {format : Text} {line : Nat} {a : Act} {c : EventError}
    (hc : a.failure? = some c) (ha : a ≠ .pull (some (.error c))) :
    a.report? format line = some (.decode format line c) := by
  rcases a with (_ | _ | _) | _ | ⟨_, _ | _⟩ <;> simp_all [report?, failure?]

/-- What the source answered. -/
@[simp] def answer? : Act → Option (Except EventError Text)
  | pull answer => answer
  | _           => none

/-- The line that the source gave. -/
@[simp] def line? : Act → Option Text
  | pull (some (.ok line)) => some line
  | _                      => none

/-- The event that the sink was handed, and its answer. -/
@[simp] def call? : Act → Option (Event × Except EventError Unit)
  | call e answer => some (e, answer)
  | _             => none

end Act

/-- What a run does, in order of time. -/
abbrev Journal := List Act

namespace Journal

/-- What the source answered, its end left out. -/
def answers (j : Journal) : Source := j.filterMap Act.answer?

/-- The lines that were pulled. -/
def lines (j : Journal) : List Text := j.filterMap Act.line?

/-- The calls of the sink. -/
def calls (j : Journal) : List (Event × Except EventError Unit) := j.filterMap Act.call?

theorem filterMap_cons_toList {β : Type} (f : Act → Option β) (a : Act) (j : Journal) :
    List.filterMap f (a :: j) = (f a).toList ++ List.filterMap f j := by
  rw [List.filterMap_cons]
  cases f a <;> rfl

@[simp] theorem answers_nil : answers [] = [] := rfl

@[simp] theorem lines_nil : lines [] = [] := rfl

@[simp] theorem calls_nil : calls [] = [] := rfl

@[simp] theorem answers_cons (a : Act) (j : Journal) :
    answers (a :: j) = a.answer?.toList ++ j.answers :=
  filterMap_cons_toList _ a j

@[simp] theorem lines_cons (a : Act) (j : Journal) :
    lines (a :: j) = a.line?.toList ++ j.lines :=
  filterMap_cons_toList _ a j

@[simp] theorem calls_cons (a : Act) (j : Journal) :
    calls (a :: j) = a.call?.toList ++ j.calls :=
  filterMap_cons_toList _ a j

/-- Without an act that failed, the sink took every event. -/
theorem ok_of_mem_calls {j : Journal} (h : ∀ a ∈ j, a.failure? = none)
    {c : Event × Except EventError Unit} (hc : c ∈ j.calls) : c.2 = .ok () := by
  obtain ⟨a, ha, hac⟩ := List.mem_filterMap.mp hc
  cases a with
  | call e r =>
      obtain rfl := Option.some.inj hac
      cases r with
      | error c => exact absurd (h _ ha) (by simp [Act.failure?])
      | ok u => rfl
  | pull _ | refuse _ => simp [Act.call?] at hac

/-- The number of events that the sink took. -/
def taken (j : Journal) : Nat := j.calls.countP fun (_, answer) => answer.isOk

end Journal

/-! ### The two parties -/

/-- What a sink answers to some events, one after the other, and its state behind them. -/
def Sink.replies {σ : Type} (sink : Sink σ) : σ → List Event → List (Except EventError Unit) × σ
  | s, []      => ([], s)
  | s, e :: es =>
    let (answer, s) := sink e s
    let (answers, s) := replies sink s es
    (answer :: answers, s)

namespace Decoder

/-- What is under way behind some lines, or why one of them is refused. -/
def openedFrom (d : Decoder) (o : Internal.Open) (lines : List Text) :
    Except EventError Internal.Open :=
  lines.foldlM (fun o line => (d.step o line).map Prod.snd) o

/-- What is under way behind the lines at the beginning of an input. -/
def opened (d : Decoder) (lines : List Text) : Except EventError Internal.Open :=
  d.openedFrom .nothing lines

/-- What a run does from a point on. -/
def journalFrom {σ : Type} (d : Decoder) (sink : Sink σ) (o : Internal.Open) (s : σ) :
    Source → Journal
  | []               =>
    .pull none ::
      match o.event? with
      | none   => []
      | some e => [.call e (sink e s).1]
  | .error c :: _    => [.pull (some (.error c))]
  | .ok line :: rest =>
    .pull (some (.ok line)) ::
      match d.step o line with
      | .error c        => [.refuse c]
      | .ok (none, o)   => d.journalFrom sink o s rest
      | .ok (some e, o) =>
        match sink e s with
        | (.ok _, s)    => .call e (.ok ()) :: d.journalFrom sink o s rest
        | (.error c, _) => [.call e (.error c)]

/-- What a run does. -/
def journal {σ : Type} (d : Decoder) (sink : Sink σ) (s : σ) (source : Source) : Journal :=
  d.journalFrom sink .nothing s source

/-! ### Runs that are under way -/

/-- From a point on, a run does what a journal says and ends with an outcome.  There is a rule for
each way to go on from what the source answers next. -/
inductive Course {σ : Type} (d : Decoder) (sink : Sink σ) :
    Progress → σ → Source → Journal → Outcome σ → Prop where
  | ended {p : Progress} {s : σ} (nothing : p.opened.event? = none) :
      Course d sink p s [] [.pull none] (complete p s)
  | flushed {p : Progress} {s s' : σ} {e : Event} (last : p.opened.event? = some e)
      (taken : sink e s = (.ok (), s')) :
      Course d sink p s [] [.pull none, .call e (.ok ())] (complete p.delivered s')
  | unflushed {p : Progress} {s s' : σ} {e : Event} {c : EventError}
      (last : p.opened.event? = some e) (failed : sink e s = (.error c, s')) :
      Course d sink p s [] [.pull none, .call e (.error c)] (fail p (d.atLine p c) s' [])
  | broken {p : Progress} {s : σ} {c : EventError} {rest : Source} :
      Course d sink p s (.error c :: rest) [.pull (some (.error c))] (fail p c s rest)
  | refused {p : Progress} {s : σ} {line : Text} {c : EventError} {rest : Source}
      (bad : d.step p.opened line = .error c) :
      Course d sink p s (.ok line :: rest) [.pull (some (.ok line)), .refuse c]
        (fail (p.pulled d line) (d.atLine (p.pulled d line) c) s rest)
  | silent {p : Progress} {s : σ} {line : Text} {o : Internal.Open} {rest : Source} {j : Journal}
      {out : Outcome σ} (read : d.step p.opened line = .ok (none, o))
      (further : Course d sink { p.pulled d line with opened := o } s rest j out) :
      Course d sink p s (.ok line :: rest) (.pull (some (.ok line)) :: j) out
  | delivered {p : Progress} {s s' : σ} {line : Text} {e : Event} {o : Internal.Open}
      {rest : Source} {j : Journal} {out : Outcome σ}
      (read : d.step p.opened line = .ok (some e, o)) (taken : sink e s = (.ok (), s'))
      (further : Course d sink { p.pulled d line with opened := o }.delivered s' rest j out) :
      Course d sink p s (.ok line :: rest)
        (.pull (some (.ok line)) :: .call e (.ok ()) :: j) out
  | undelivered {p : Progress} {s s' : σ} {line : Text} {e : Event} {o : Internal.Open}
      {c : EventError} {rest : Source} (read : d.step p.opened line = .ok (some e, o))
      (failed : sink e s = (.error c, s')) :
      Course d sink p s (.ok line :: rest) [.pull (some (.ok line)), .call e (.error c)]
        (fail (p.pulled d line) (d.atLine (p.pulled d line) c) s' rest)

variable {σ : Type} {d : Decoder} {sink : Sink σ} {p : Progress} {s : σ} {source : Source}
  {j : Journal} {out : Outcome σ}

/-- Every run takes the course that its journal says. -/
theorem course_runFrom (d : Decoder) (sink : Sink σ) :
    ∀ (source : Source) (p : Progress) (s : σ),
      Course d sink p s source (d.journalFrom sink p.opened s source) (d.runFrom sink p s source)
  | [], p, s => by
      rw [runFrom, journalFrom]
      cases hl : p.opened.event? with
      | none => exact .ended hl
      | some e =>
          rcases hs : sink e s with ⟨_ | _, s'⟩
          · simpa only [deliver, hs] using .unflushed hl hs
          · simpa only [deliver, hs] using .flushed hl hs
  | .error c :: rest, p, s => .broken
  | .ok line :: rest, p, s => by
      rw [runFrom, journalFrom]
      rcases hr : d.step p.opened line with c | ⟨_ | e, o⟩
      · simpa only [Progress.pulled, hr] using .refused hr
      · have h := course_runFrom d sink rest { p.pulled d line with opened := o } s
        simpa only [Progress.pulled, hr, deliver] using .silent hr h
      · rcases hs : sink e s with ⟨_ | _, s'⟩
        · simpa only [Progress.pulled, hr, deliver, hs] using .undelivered hr hs
        · have h := course_runFrom d sink rest { p.pulled d line with opened := o }.delivered s'
          simpa only [Progress.pulled, hr, deliver, hs] using .delivered hr hs h

namespace Course

theorem answers_append_rest (h : Course d sink p s source j out) :
    j.answers ++ out.rest = source := by
  induction h with
  | silent _ _ ih | delivered _ _ _ ih => simpa using ih
  | _ => rfl

theorem replies_calls (h : Course d sink p s source j out) :
    sink.replies s (j.calls.map Prod.fst) = (j.calls.map Prod.snd, out.state) := by
  induction h with
  | ended | broken | refused => rfl
  | flushed _ hs | unflushed _ hs | undelivered _ hs => simp [Sink.replies, hs, complete, fail]
  | silent _ _ ih => simpa using ih
  | delivered _ hs _ ih => simp [Sink.replies, hs, ih]

theorem rest_eq_nil (h : Course d sink p s source j out) (hj : .pull none ∈ j) :
    out.rest = [] := by
  induction h with
  | ended _ | flushed _ _ | unflushed _ _ => rfl
  | broken | refused _ | undelivered _ _ => simp at hj
  | silent _ _ ih | delivered _ _ _ ih => exact ih (by simpa using hj)

/-- A course ends with an act that failed, or at the end of its source; all other acts succeed. -/
theorem ends (h : Course d sink p s source j out) :
    ∃ before last, j = before ++ [last] ∧ (∀ a ∈ before, a.failure? = none) ∧
      (∀ e, last.report? d.format (p.tally.linesRead + j.lines.length) = some e →
        out.result = .error e) ∧
      (last.failure? = none →
        .pull none ∈ j ∧ out.result = .ok (p.tally.eventsDelivered + j.calls.length)) := by
  induction h with
  | ended _ => exact ⟨[], _, rfl, by simp, by simp [Act.report?], by simp [complete]⟩
  | flushed _ _ =>
      exact ⟨[.pull none], _, rfl, by simp [Act.failure?], by simp [Act.report?],
        by simp [complete, Progress.delivered]⟩
  | unflushed _ _ =>
      exact ⟨[.pull none], _, rfl, by simp [Act.failure?], by simp [Act.report?, fail, atLine],
        by simp [Act.failure?]⟩
  | broken => exact ⟨[], _, rfl, by simp, by simp [Act.report?, fail], by simp [Act.failure?]⟩
  | refused _ | undelivered _ _ =>
      exact ⟨[.pull _], _, rfl, by simp [Act.failure?],
        by simp [Act.report?, fail, atLine, Progress.pulled], by simp [Act.failure?]⟩
  | @silent p _ line _ _ j _ _ _ ih =>
      obtain ⟨before, last, rfl, hb, hl⟩ := ih
      refine ⟨.pull (some (.ok line)) :: before, last, rfl, by simpa [Act.failure?] using hb, ?_⟩
      simpa [Progress.pulled, Nat.add_assoc, Nat.add_comm 1] using hl
  | @delivered p _ _ line e _ _ j _ _ _ _ ih =>
      obtain ⟨before, last, rfl, hb, hl⟩ := ih
      refine ⟨.pull (some (.ok line)) :: .call e (.ok ()) :: before, last, rfl,
        by simpa [Act.failure?] using hb, ?_⟩
      simpa [Progress.pulled, Progress.delivered, Nat.add_assoc, Nat.add_comm 1] using hl

theorem tally_eq (h : Course d sink p s source j out) :
    out.tally =
      { linesRead := p.tally.linesRead + j.lines.length
        eventsDelivered := p.tally.eventsDelivered + j.taken
        failures := p.tally.failures + if out.result.isOk then 0 else 1
        completions := p.tally.completions + if out.result.isOk then 1 else 0 } := by
  induction h with
  | ended _ => rfl
  | flushed _ _ => rfl
  | unflushed _ _ => rfl
  | broken | refused _ | undelivered _ _ => rfl
  | silent _ _ ih =>
      simpa [Journal.taken, Progress.pulled, Nat.add_assoc, Nat.add_comm 1] using ih
  | delivered _ _ _ ih =>
      rw [ih]
      simp [Journal.taken, Progress.pulled, Progress.delivered, Except.isOk, Except.toBool,
        Nat.add_assoc, Nat.add_comm 1]

theorem refuse_mem_iff (h : Course d sink p s source j out) (c : EventError) :
    .refuse c ∈ j ↔ d.openedFrom p.opened j.lines = .error c := by
  induction h with
  | ended _ | flushed _ _ | unflushed _ _ | broken =>
      simp [openedFrom, pure, Except.pure]
  | refused hr =>
      simp [openedFrom, hr, bind, Except.bind, Except.map, eq_comm]
  | undelivered hr _ =>
      simp [openedFrom, hr, bind, Except.bind, Except.map, pure, Except.pure]
  | silent hr _ ih | delivered hr _ _ ih =>
      simpa [openedFrom, Progress.pulled, Progress.delivered, hr, bind, Except.bind, Except.map]
        using ih

/-- What was done up to a request to the source does not depend on its answer. -/
theorem causal (h : Course d sink p s source j out) (tail : Source) :
    ∀ {before after : Journal} {a : Option (Except EventError Text)},
      j = before ++ .pull a :: after →
        ∃ k, d.journalFrom sink p.opened s (before.answers ++ tail) = before ++ k := by
  induction h with
  | ended _ | flushed _ _ | unflushed _ _ | broken | refused _ | undelivered _ _ =>
      rintro (_ | ⟨_, _ | ⟨_, _⟩⟩) after a hj <;> first | exact ⟨_, rfl⟩ | simp at hj
  | silent hr _ ih =>
      rintro (_ | ⟨b, before⟩) after a hj
      · exact ⟨_, rfl⟩
      · obtain ⟨rfl, rfl⟩ := List.cons.inj hj
        obtain ⟨k, hk⟩ := ih rfl
        exact ⟨k, by simp [journalFrom, hr, ← hk]⟩
  | delivered hr hs _ ih =>
      rintro (_ | ⟨b, _ | ⟨b', before⟩⟩) after a hj
      · exact ⟨_, rfl⟩
      · simp at hj
      · simp only [List.cons_append, List.cons.injEq] at hj
        obtain ⟨rfl, rfl, rfl⟩ := hj
        obtain ⟨k, hk⟩ := ih rfl
        exact ⟨k, by simp [journalFrom, hr, hs, Progress.delivered, ← hk]⟩

end Course

end Decoder

/-! ### Main statement -/

/-- A journal explains a run of a decoder that begins with a sink in a state and with a source. -/
structure Journal.Explains {σ : Type} (j : Journal) (d : Decoder) (sink : Sink σ) (s : σ)
    (source : Source) (out : Outcome σ) : Prop where
  /-- The source was asked for the answers of the journal, in this order, and for nothing more. -/
  answers_append_rest : j.answers ++ out.rest = source
  /-- Its end was noted where it was reached. -/
  rest_eq_nil : .pull none ∈ j → out.rest = []
  /-- The sink was handed the events of the journal, in this order, and nothing more. -/
  replies_calls : sink.replies s (j.calls.map Prod.fst) = (j.calls.map Prod.snd, out.state)
  /-- The acts are noted in time: what stands before a request to the source is done whatever the
  source answers. -/
  causal : ∀ (before after : Journal) a, j = before ++ .pull a :: after →
    ∀ tail, ∃ k, d.journal sink s (before.answers ++ tail) = before ++ k
  /-- A line was refused if, behind the lines before it, it is no line of the format. -/
  refuse_mem_iff : ∀ c, .refuse c ∈ j ↔ d.opened j.lines = .error c
  /-- Nothing was done behind an act that failed. -/
  failure_last : ∀ (before after : Journal) a, j = before ++ a :: after → a.failure? ≠ none →
    after = []
  /-- The run succeeded if it reached the end of the source and no act failed; it then tells how
  often it called the sink, which took every event. -/
  ok_iff : ∀ n, out.result = .ok n ↔
    .pull none ∈ j ∧ (∀ a ∈ j, a.failure? = none) ∧ n = j.calls.length ∧ ∀ c ∈ j.calls, c.2 = .ok ()
  /-- What the source failed with is the error of the run. -/
  source_error : ∀ c, .pull (some (.error c)) ∈ j → out.result = .error c
  /-- Any other failure is answered with the name of the format and the number of lines pulled. -/
  line_error : ∀ a ∈ j, ∀ c, a.failure? = some c → a ≠ .pull (some (.error c)) →
    out.result = .error (.decode d.format j.lines.length c)
  /-- An error of the run has the number of an act's failure. -/
  error_code : ∀ e, out.result = .error e → ∃ a ∈ j, ∃ c, a.failure? = some c ∧ e.code = c.code
  /-- What was counted. -/
  tally_eq : out.tally =
    { linesRead := j.lines.length
      eventsDelivered := j.taken
      failures := if out.result.isOk then 0 else 1
      completions := if out.result.isOk then 1 else 0 }

namespace Decoder

/-- **The journal of a run explains it**, in every format, with every sink and from every source. -/
theorem run_explained {σ : Type} (d : Decoder) (sink : Sink σ) (s : σ) (source : Source) :
    (d.journal sink s source).Explains d sink s source (d.run sink s source) := by
  have h : Course d sink .start s source (d.journal sink s source) (d.run sink s source) :=
    course_runFrom d sink source .start s
  generalize d.journal sink s source = j at h ⊢
  obtain ⟨before, last, hj, hb, he, hok⟩ := h.ends
  have ht := h.tally_eq
  simp only [Progress.start, Tally.zero, Nat.zero_add] at he hok ht
  have others : ∀ a ∈ j, a = last ∨ a.failure? = none := fun a ha => by
    rcases List.mem_append.mp (hj ▸ ha) with hm | hm
    · exact .inr (hb a hm)
    · exact .inl (List.mem_singleton.mp hm)
  have reported : ∀ {c : EventError}, last.failure? = some c →
      ∃ e, (d.run sink s source).result = .error e ∧ e.code = c.code := fun {c} hc => by
    by_cases hp : last = .pull (some (.error c))
    · exact ⟨c, he c (hp ▸ rfl), rfl⟩
    · exact ⟨_, he _ (Act.report?_of_ne_pull hc hp), rfl⟩
  refine ⟨h.answers_append_rest, h.rest_eq_nil, h.replies_calls,
    fun _ _ _ hx tail => h.causal tail hx, h.refuse_mem_iff, fun b x a hx hf => ?_,
    fun n => ⟨fun hn => ?_, fun hn => ?_⟩, fun c hc => ?_, fun a ha c hc hp => ?_,
    fun e hr => ?_, ht⟩
  · obtain rfl | ⟨y, z, rfl⟩ := x.eq_nil_or_concat
    · rfl
    · -- Then the act stands in front of the last one, and has not failed.
      have hy : before ++ [last] = (b ++ a :: y) ++ [z] := by simp [← hj, hx]
      obtain ⟨rfl, -⟩ := List.append_inj' hy rfl
      exact absurd (hb a (by simp)) hf
  · cases hc : last.failure? with
    | some c =>
        obtain ⟨e, hr, -⟩ := reported hc
        rw [hr] at hn
        cases hn
    | none =>
        have hall : ∀ a ∈ j, a.failure? = none := fun a ha =>
          (others a ha).elim (fun hl => hl ▸ hc) id
        obtain ⟨hend, hlen⟩ := hok hc
        rw [hlen] at hn
        cases hn
        exact ⟨hend, hall, rfl, fun c hm => Journal.ok_of_mem_calls hall hm⟩
  · obtain ⟨-, hall, rfl, -⟩ := hn
    exact (hok (hall last (by simp [hj]))).2
  · obtain rfl | hf := others _ hc
    · exact he c rfl
    · cases hf
  · obtain rfl | hf := others a ha
    · exact he _ (Act.report?_of_ne_pull hc hp)
    · rw [hf] at hc
      cases hc
  · cases hc : last.failure? with
    | none =>
        rw [(hok hc).2] at hr
        cases hr
    | some c =>
        obtain ⟨e', hr', hcode⟩ := reported hc
        rw [hr'] at hr
        cases hr
        exact ⟨last, by simp [hj], c, hc, hcode⟩

end Decoder

end EventLog
