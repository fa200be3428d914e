import EventLog.Proofs.Decoding.Following
import EventLog.Proofs.Decoding.LineGrammar

/-!
# Lines put behind lines

A run over some lines that succeeds has taken what was under way at their end.  If more lines
follow, they find it still under way: it is taken by a later line, or at the end of these.

* `runFrom_settled`: lines that begin with an event (`BeginsAnew`) do not notice whether
  what they find under way was taken before them.
* `runFrom_behind`: a run that starts with more on its counts gives a number and line numbers that
  are higher by as much.
* `run_append`: so a run over two lists of lines is the run over the first one and a run over the
  second one behind it.
* `record_append`: if the events are only kept, the second run can as well begin with none.
-/

namespace EventLog

/-- An error of a line that has `k` lines more before it. -/
def EventError.behind (k : Nat) : EventError → EventError
  | .decode format line c => .decode format (line + k) c
  | c                     => c

/-- The first line that is no comment, if there is one, begins an event. -/
def Internal.BeginsAnew (lines : List Text) : Prop :=
  ∀ line ∈ (lines.dropWhile LineKind.comment.heads).head?, LineKind.event.heads line

instance (lines : List Text) : Decidable (Internal.BeginsAnew lines) :=
  inferInstanceAs (Decidable (∀ line ∈ (lines.dropWhile _).head?, Internal.LineKind.heads _ line))

namespace Decoder

variable {σ : Type} {d : Decoder} {sink : Sink σ} {p p' : Progress} {s s' : σ} {n : Nat}

/-! ### What is under way at the end of lines -/

/-- Only the internal format leaves anything under way. -/
theorem step_opened (stateless : d ≠ internal) {o o' : Internal.Open} {line : Text}
    {e : Option Event} (h : d.step o line = .ok (e, o')) : o' = o := by
  cases d with
  | internal => exact absurd rfl stateless
  | apache names =>
      cases h
      rfl
  | json =>
      rw [step] at h
      cases hl : JsonLine.event line with
      | error c => simp [hl, Except.map] at h
      | ok e' =>
          rw [hl] at h
          cases h
          rfl

/-- Where a run that ends well stands behind the last line, and from where it would go on if there
were more of them.  What is under way there is taken at the end. -/
structure Arrives (d : Decoder) (sink : Sink σ) (p : Progress) (s : σ) (source : Source)
    (out : Outcome σ) (n : Nat) (p' : Progress) (s' : σ) (p'' : Progress) : Prop where
  further : ∀ rest, d.runFrom sink p s (source ++ rest) = d.runFrom sink p' s' rest
  taken : deliver sink p' s' p'.opened.event? = (.ok p'', out.state)
  delivered : p''.tally.eventsDelivered = n
  linesRead : p''.tally.linesRead = p.tally.linesRead + source.length
  opened : d ≠ internal → p'.opened = p.opened

theorem Course.arrives {source : Source} {j : Journal} {out : Outcome σ}
    (h : Course d sink p s source j out) (hn : out.result = .ok n) :
    ∃ p' s' p'', Arrives d sink p s source out n p' s' p'' := by
  induction h with
  | @ended p s last =>
      cases hn
      exact ⟨p, s, p, fun _ => rfl, by rw [last]; rfl, rfl, rfl, fun _ => rfl⟩
  | @flushed p s t e last taken =>
      cases hn
      exact ⟨p, s, p.delivered, fun _ => rfl, by rw [last, deliver, taken]; rfl, rfl, rfl,
        fun _ => rfl⟩
  | unflushed | broken | refused | undelivered => cases hn
  | silent read _ ih =>
      obtain ⟨p', s', p'', further, taken, delivered, linesRead, opened⟩ := ih hn
      refine ⟨p', s', p'', fun rest => ?_, taken, delivered,
        linesRead.trans (Nat.succ_add_eq_add_succ _ _),
        fun hd => (opened hd).trans (step_opened hd read)⟩
      rw [← further, List.cons_append, runFrom]
      simp only [Progress.pulled, read, deliver]
  | delivered read accepted _ ih =>
      obtain ⟨p', s', p'', further, taken, delivered, linesRead, opened⟩ := ih hn
      refine ⟨p', s', p'', fun rest => ?_, taken, delivered,
        linesRead.trans (Nat.succ_add_eq_add_succ _ _),
        fun hd => (opened hd).trans (step_opened hd read)⟩
      rw [← further, List.cons_append, runFrom]
      simp only [Progress.pulled, read, deliver, accepted]

/-- What succeeds has delivered the event if there is one. -/
theorem deliver_eq_ok_iff {e : Option Event} :
    deliver sink p s e = (.ok p', s') ↔
      e = none ∧ p' = p ∧ s' = s ∨
        ∃ e', e = some e' ∧ sink e' s = (.ok (), s') ∧ p' = p.delivered := by
  cases e with
  | none => simp [deliver, eq_comm]
  | some e =>
      rcases hs : sink e s with ⟨_ | _, t⟩
      · simp [deliver, hs]
      · simp [deliver, hs, eq_comm, and_comm]

/-- What can be delivered can be delivered later as well. -/
theorem deliver_pulled {e : Option Event} (h : deliver sink p s e = (.ok p', s')) (d : Decoder)
    (line : Text) : deliver sink (p.pulled d line) s e = (.ok (p'.pulled d line), s') := by
  rw [deliver_eq_ok_iff] at h ⊢
  obtain ⟨rfl, rfl, rfl⟩ | ⟨e', rfl, taken, rfl⟩ := h
  · exact .inl ⟨rfl, rfl, rfl⟩
  · exact .inr ⟨e', rfl, taken, rfl⟩

/-- Lines that begin with an event, comments aside, give the same whether the event that is under
way before them has been taken or is left to them. -/
theorem runFrom_settled :
    ∀ {lines : List Text} {p p' : Progress}, Internal.BeginsAnew lines →
      deliver sink p s p.opened.event? = (.ok p', s') →
      internal.runFrom sink p s (.ofLines lines) =
        internal.runFrom sink { p' with opened := .nothing } s' (.ofLines lines)
  | [], p, p', _, taken => by
      simp only [Source.ofLines, List.map_nil, runFrom, taken]
      rfl
  | line :: lines, p, p', anew, taken => by
      rw [Source.ofLines_cons, runFrom, runFrom]
      cases hl : Internal.LineKind.comment.heads line with
      | true =>
          have behind : Internal.BeginsAnew lines := by simpa [Internal.BeginsAnew, hl] using anew
          have settled := runFrom_settled behind (deliver_pulled taken internal line)
          obtain ⟨v, rfl⟩ := Internal.eq_letter_of_heads hl
          simp only [Internal.step_letter, Internal.step, deliver]
          exact settled
      | false =>
          have begins : Internal.LineKind.event.heads line := by
            simpa [Internal.BeginsAnew, hl] using anew
          obtain ⟨v, rfl⟩ := Internal.eq_letter_of_heads begins
          simp only [Internal.step_letter, Internal.step]
          -- The line takes the event, if it is left to it.
          obtain ⟨none, rfl, rfl⟩ | ⟨e, some, accepted, rfl⟩ := deliver_eq_ok_iff.mp taken
          · simp only [Progress.pulled, none, deliver]
            rfl
          · simp only [Progress.pulled, some, deliver, accepted]
            rfl

/-! ### Counts -/

/-- A run that starts with more on its counts ends like one that starts with less, and tells as much
more. -/
theorem runFrom_behind {k m : Nat} :
    ∀ (lines : List Text) {p q : Progress} (s : σ), q.opened = p.opened →
      q.tally.linesRead = p.tally.linesRead + k →
      q.tally.eventsDelivered = m + p.tally.eventsDelivered →
      (d.runFrom sink q s (.ofLines lines)).result =
          ((d.runFrom sink p s (.ofLines lines)).result.map (m + ·)).mapError (.behind k) ∧
        (d.runFrom sink q s (.ofLines lines)).state =
          (d.runFrom sink p s (.ofLines lines)).state
  | [], p, q, s, ho, hl, he => by
      simp only [Source.ofLines, List.map_nil, runFrom, ho]
      cases p.opened.event? with
      | none => simp [deliver, complete, he, Except.map]
      | some e =>
          rcases hs : sink e s with ⟨_ | _, s'⟩
          · simp [deliver, hs, fail, atLine, hl, Except.map, EventError.behind]
          · simp [deliver, hs, complete, Progress.delivered, he, Except.map, Nat.add_assoc]
  | line :: lines, p, q, s, ho, hl, he => by
      simp only [Source.ofLines_cons, runFrom, Progress.pulled, ho]
      cases hr : d.step p.opened line with
      | error c => simp [fail, atLine, hl, Except.map, EventError.behind, Nat.add_right_comm]
      | ok r =>
          obtain ⟨_ | e, o⟩ := r
          · exact runFrom_behind lines s rfl (by simp [hl, Nat.add_right_comm]) he
          · rcases hs : sink e s with ⟨_ | _, s'⟩
            · simp [deliver, hs, fail, atLine, hl, Except.map, EventError.behind,
                Nat.add_right_comm]
            · simp only [deliver, hs]
              exact runFrom_behind lines s' rfl
                (by simp [Progress.delivered, hl, Nat.add_right_comm])
                (by simp [Progress.delivered, he, Nat.add_assoc])

/-- **Lines put behind lines** that are read to the end, and that are cut where an event begins: the
run over both is the run over the first ones and a run over the others behind it. -/
theorem run_append {a b : List Text} (h : (d.run sink s (.ofLines a)).result = .ok n)
    (anew : d = internal → Internal.BeginsAnew b) :
    let second := d.run sink (d.run sink s (.ofLines a)).state (.ofLines b)
    let both := d.run sink s (.ofLines (a ++ b))
    both.result = (second.result.map (n + ·)).mapError (.behind a.length) ∧
      both.state = second.state := by
  intro second both
  obtain ⟨p', s', p'', further, taken, delivered, linesRead, opened⟩ :=
    (course_runFrom d sink (.ofLines a) .start s).arrives h
  have settled : d.runFrom sink p' s' (.ofLines b) =
      d.runFrom sink { p'' with opened := .nothing } (d.run sink s (.ofLines a)).state
        (.ofLines b) := by
    by_cases hd : d = internal
    · subst hd
      exact runFrom_settled (anew rfl) taken
    · -- Then nothing is under way.
      have nothing : p'.opened = .nothing := opened hd
      rw [nothing] at taken
      obtain ⟨-, rfl, hs⟩ | ⟨e, some, -, -⟩ := deliver_eq_ok_iff.mp taken
      · rw [← nothing]
        exact congrArg (d.runFrom sink p'' · _) hs.symm
      · cases some
  have joined : both = d.runFrom sink { p'' with opened := .nothing }
      (d.run sink s (.ofLines a)).state (.ofLines b) := by
    rw [← settled, ← further, ← Source.ofLines_append]
    rfl
  rw [joined]
  refine runFrom_behind b _ rfl ?_ delivered
  rw [linesRead, Source.ofLines, List.length_map]

/-- What has been kept before does not matter. -/
theorem agrees_recorder_append (kept : List Event) :
    Sink.recorder.Agrees Sink.recorder fun es es' => es' = kept ++ es := by
  rintro es _ e rfl
  exact ⟨_, _, _, rfl, rfl, List.append_assoc ..⟩

/-- The events of lines put behind lines are those of the first ones and those of the others. -/
theorem record_append {a b : List Text} (h : (d.run Sink.recorder [] (.ofLines a)).result = .ok n)
    (anew : d = internal → Internal.BeginsAnew b) :
    let first := d.run Sink.recorder [] (.ofLines a)
    let second := d.run Sink.recorder [] (.ofLines b)
    let both := d.run Sink.recorder [] (.ofLines (a ++ b))
    both.result = (second.result.map (n + ·)).mapError (.behind a.length) ∧
      both.state = first.state ++ second.state := by
  intro first second both
  obtain ⟨result, state⟩ := run_append h anew
  have start : first.state = first.state ++ [] := (List.append_nil _).symm
  obtain ⟨same, kept⟩ :=
    run_agrees (R := fun es es' => es' = first.state ++ es) (agrees_recorder_append first.state) d
      (.ofLines b) start
  exact ⟨by rw [result, same], state.trans kept⟩

end Decoder

end EventLog
