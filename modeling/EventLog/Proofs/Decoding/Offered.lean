import EventLog.Proofs.Decoding.Scan

/-!
# What a source offers

Which events a run hands to its sink is settled by its source, as long as the sink takes them.
`Decoder.offered` are the events up to the end of the source, or up to the first line or answer that
stops a run.

* `offered_ofLines`: lines that are all read offer what they complete and what they leave under way.
* `run_ok`: a run that succeeds has handed over all that its source offers, and the sink has taken
  it (`Sink.Takes`).
-/

namespace EventLog

/-- A sink takes events one after the other, from a state to the state behind them. -/
inductive Sink.Takes {σ : Type} (sink : Sink σ) : σ → List Event → σ → Prop where
  | nil {s : σ} : Takes sink s [] s
  | cons {s s' s'' : σ} {e : Event} {es : List Event} (taken : sink e s = (.ok (), s'))
      (further : Takes sink s' es s'') : Takes sink s (e :: es) s''

/-- The recorder has all events that it has taken behind those it had. -/
theorem Sink.Takes.eq_append {kept es kept' : List Event}
    (h : Takes recorder kept es kept') : kept' = kept ++ es := by
  induction h with
  | nil => exact (List.append_nil _).symm
  | cons taken _ ih =>
      cases taken
      rw [ih, List.append_assoc, List.singleton_append]

namespace Decoder

/-- The events that a source offers from a point on. -/
def offeredFrom (d : Decoder) (o : Internal.Open) : Source → List Event
  | []               => o.event?.toList
  | .error _ :: _    => []
  | .ok line :: rest =>
    match d.step o line with
    | .error _   => []
    | .ok (e, o) => e.toList ++ d.offeredFrom o rest

/-- The events that a source offers. -/
def offered (d : Decoder) (source : Source) : List Event := d.offeredFrom .nothing source

theorem offeredFrom_ofLines (d : Decoder) :
    ∀ (lines : List Text) {o o' : Internal.Open}, d.openedFrom o lines = .ok o' →
      d.offeredFrom o (.ofLines lines) = d.completedFrom o lines ++ o'.event?.toList
  | [], o, o', h => by cases h; rfl
  | line :: lines, o, o', h => by
      rw [openedFrom_cons] at h
      rw [Source.ofLines_cons, offeredFrom, completedFrom]
      cases hr : d.step o line with
      | error c => simp [hr] at h
      | ok r =>
          simp only [hr] at h
          simp only [offeredFrom_ofLines d lines h, List.append_assoc]

/-- Lines that are all read offer what they complete and what they leave under way. -/
theorem offered_ofLines {d : Decoder} {lines : List Text} {o : Internal.Open}
    (h : d.opened lines = .ok o) :
    d.offered (.ofLines lines) = d.completed lines ++ o.event?.toList :=
  d.offeredFrom_ofLines lines h

variable {σ : Type} {d : Decoder} {sink : Sink σ}

/-- A course that ends well has handed over what the source offers. -/
theorem Course.takes_of_ok {p : Progress} {s : σ} {source : Source} {j : Journal} {out : Outcome σ}
    (h : Course d sink p s source j out) {n : Nat} (hn : out.result = .ok n) :
    n = p.tally.eventsDelivered + (d.offeredFrom p.opened source).length ∧
      sink.Takes s (d.offeredFrom p.opened source) out.state := by
  induction h with
  | ended last =>
      simp only [offeredFrom, last]
      exact ⟨by cases hn; rfl, .nil⟩
  | flushed last taken =>
      simp only [offeredFrom, last]
      exact ⟨by cases hn; rfl, .cons taken .nil⟩
  | unflushed | broken | refused | undelivered => cases hn
  | silent read _ ih =>
      simp only [offeredFrom, read]
      exact ih hn
  | delivered read taken _ ih =>
      simp only [offeredFrom, read]
      obtain ⟨hlen, htakes⟩ := ih hn
      refine ⟨?_, .cons taken htakes⟩
      simpa [Progress.delivered, Progress.pulled, Nat.add_assoc, Nat.add_comm 1] using hlen

/-- **A run that succeeds** has handed over all that its source offers, and the sink has taken it. -/
theorem run_ok {s : σ} {source : Source} {n : Nat} (h : (d.run sink s source).result = .ok n) :
    n = (d.offered source).length ∧
      sink.Takes s (d.offered source) (d.run sink s source).state := by
  obtain ⟨hlen, htakes⟩ := (course_runFrom d sink source .start s).takes_of_ok h
  exact ⟨hlen.trans (Nat.zero_add _), htakes⟩

end Decoder

end EventLog
