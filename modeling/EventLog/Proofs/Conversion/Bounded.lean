import EventLog.Proofs.Conversion.Written
import EventLog.Proofs.Decoding.Following

/-!
# Conversions into a bounded output

An output with a bound takes what an output without one takes, up to the byte at the bound, and the
write that this byte belongs to fails.  Until then a conversion into it is step by step the one into
the other: its sink follows the other sink as long as both have written the same (`Alike`).

* `emit_of_fits`: an event that there is room for is written as a whole.
* `emit_of_not_fits`: one that there is no room for is written as far as there is, and nothing is
  encoded behind the piece in which the room ends.
* `Convert.run_within_room`: so a conversion writes what is written without a bound, up to the
  bound.  If that is not all, it ends with the event that the byte at the bound belongs to, and with
  the number of the line at which the other conversion writes this event.
-/

namespace EventLog

namespace Emitter

variable {flags : Flags} {e : Event} {p : Piece} {ps qs : Emitter} {w w' w'' : Written}
  {room n : Nat}

/-! ### Pieces -/

/-- The bytes of the line of a piece. -/
def line (flags : Flags) (e : Event) (p : Piece) : Bytes := Utf8.encode (pieceText flags e p)

/-- The formats that an event is encoded in. -/
def formats (ps : Emitter) : List Text := ps.filterMap fun p => p.encoder.map Encoder.format

theorem bytes_cons (flags : Flags) (p : Piece) (ps : Emitter) (e : Event) :
    bytes flags (p :: ps) e = line flags e p ++ bytes flags ps e :=
  List.flatMap_cons

theorem bytes_singleton (flags : Flags) (p : Piece) (e : Event) :
    bytes flags [p] e = line flags e p :=
  List.flatMap_singleton ..

theorem bytes_append (flags : Flags) (ps qs : Emitter) (e : Event) :
    bytes flags (ps ++ qs) e = bytes flags ps e ++ bytes flags qs e :=
  List.flatMap_append

theorem formats_append (ps qs : Emitter) : formats (ps ++ qs) = formats ps ++ formats qs :=
  List.filterMap_append

theorem formats_singleton (p : Piece) : formats [p] = (p.encoder.map Encoder.format).toList := by
  cases h : p.encoder <;> simp [formats, h]

/-- What has been written once a piece was tried, whether there was room for it or not. -/
def Written.tried (flags : Flags) (e : Event) (p : Piece) (w : Written) : Written :=
  ⟨(w.output.write (line flags e p)).2, w.encoded ++ (p.encoder.map Encoder.format).toList⟩

theorem Written.encoded_tried :
    (w.tried flags e p).encoded.toList = w.encoded.toList ++ formats [p] := by
  rw [formats_singleton]
  simp [tried]

/-- A piece is tried, and the others behind it, if there was room for it. -/
theorem emit_cons (flags : Flags) (e : Event) (p : Piece) (ps : Emitter) (w : Written) :
    emit flags e (p :: ps) w =
      if w.output.room.all fun room => (line flags e p).length ≤ room then
        emit flags e ps (w.tried flags e p)
      else (.error (.io Output.fullReason), w.tried flags e p) := rfl

theorem emit_cons_of_fits (fits : ∀ room ∈ w.output.room, (line flags e p).length ≤ room) :
    emit flags e (p :: ps) w = emit flags e ps (w.tried flags e p) := by
  rw [emit_cons, if_pos (by simpa [Option.all_eq_true] using fits)]

/-- The byte at a position is due in the line of a piece, behind the lines of others. -/
structure DueIn (flags : Flags) (e : Event) (ps : Emitter) (n : Nat) (done : Emitter)
    (p : Piece) : Prop where
  split : ∃ todo, ps = done ++ p :: todo
  behind : (bytes flags done e).length ≤ n
  inside : n < (bytes flags done e).length + (line flags e p).length

theorem exists_dueIn (h : n < (bytes flags ps e).length) : ∃ done p, DueIn flags e ps n done p := by
  induction ps generalizing n with
  | nil => simp [bytes] at h
  | cons p ps ih =>
      rw [bytes_cons, List.length_append] at h
      by_cases first : n < (line flags e p).length
      · exact ⟨[], p, ⟨ps, rfl⟩, Nat.zero_le n, by simpa [bytes] using first⟩
      · obtain ⟨done, q, ⟨todo, rfl⟩, behind, inside⟩ :=
          ih (n := n - (line flags e p).length) (by omega)
        refine ⟨p :: done, q, ⟨todo, rfl⟩, ?_, ?_⟩
        all_goals
          rw [bytes_cons, List.length_append]
          omega

/-! ### Writing an event -/

/-- An event has been written behind what there was before. -/
structure Behind (flags : Flags) (e : Event) (ps : Emitter) (w w' : Written) : Prop where
  taken : w'.output.taken = w.output.taken ++ bytes flags ps e
  room : w'.output.room = w.output.room.map fun room => room - (bytes flags ps e).length
  encoded : w'.encoded.toList = w.encoded.toList ++ formats ps

namespace Behind

theorem nil : Behind flags e [] w w :=
  ⟨by simp [bytes], by cases h : w.output.room <;> simp [bytes], by simp [formats]⟩

theorem append (h : Behind flags e ps w w') (h' : Behind flags e qs w' w'') :
    Behind flags e (ps ++ qs) w w'' := by
  refine ⟨?_, ?_, ?_⟩
  · rw [h'.taken, h.taken, bytes_append, List.append_assoc]
  · rw [h'.room, h.room, bytes_append, List.length_append]
    cases w.output.room <;> simp [Nat.sub_sub]
  · rw [h'.encoded, h.encoded, formats_append, List.append_assoc]

theorem tried (fits : ∀ room ∈ w.output.room, (line flags e p).length ≤ room) :
    Behind flags e [p] w (w.tried flags e p) := by
  refine ⟨?_, by rw [bytes_singleton]; rfl, Written.encoded_tried⟩
  rw [bytes_singleton, Written.tried, Output.taken_write, Output.fitting_of_fits fits]

end Behind

/-- An event that fits is written as a whole, and further pieces behind it. -/
theorem emit_append_of_fits (qs : Emitter)
    (fits : ∀ room ∈ w.output.room, (bytes flags ps e).length ≤ room) :
    ∃ w', emit flags e (ps ++ qs) w = emit flags e qs w' ∧ Behind flags e ps w w' := by
  induction ps generalizing w with
  | nil => exact ⟨w, rfl, .nil⟩
  | cons p ps ih =>
      simp only [bytes_cons, List.length_append] at fits
      have first : ∀ room ∈ w.output.room, (line flags e p).length ≤ room :=
        fun room h => Nat.le_of_add_right_le (fits room h)
      have tried := Behind.tried first
      have second : ∀ room ∈ (w.tried flags e p).output.room,
          (bytes flags ps e).length ≤ room := by
        intro left h
        rw [tried.room, bytes_singleton] at h
        obtain ⟨room, hroom, rfl⟩ := Option.map_eq_some_iff.mp h
        exact Nat.le_sub_of_add_le' (fits room hroom)
      obtain ⟨w', emitted, further⟩ := ih second
      exact ⟨w', (emit_cons_of_fits first).trans emitted, tried.append further⟩

theorem emit_of_fits (flags : Flags) (e : Event) (ps : Emitter)
    (fits : ∀ room ∈ w.output.room, (bytes flags ps e).length ≤ room) :
    ∃ w', emit flags e ps w = (.ok (), w') ∧ Behind flags e ps w w' := by
  have := emit_append_of_fits [] fits
  rwa [List.append_nil] at this

/-- An event that does not fit is written as far as there is room.  Nothing is encoded behind the
piece that the end of the room lies in. -/
theorem emit_of_not_fits (hroom : w.output.room = some room)
    (beyond : room < (bytes flags ps e).length) :
    ∃ done p w', DueIn flags e ps room done p ∧
      emit flags e ps w = (.error (.io Output.fullReason), w') ∧
      w'.output.taken = w.output.taken ++ (bytes flags ps e).take room ∧
      w'.encoded.toList = w.encoded.toList ++ formats (done ++ [p]) := by
  obtain ⟨done, p, due⟩ := exists_dueIn beyond
  obtain ⟨⟨todo, rfl⟩, behind, inside⟩ := due
  obtain ⟨w', emitted, written⟩ := emit_append_of_fits (w := w) (p :: todo) (by simpa [hroom])
  have left : w'.output.room = some (room - (bytes flags done e).length) := by
    rw [written.room, hroom, Option.map_some]
  refine ⟨done, p, w'.tried flags e p, ⟨⟨todo, rfl⟩, behind, inside⟩, ?_, ?_, ?_⟩
  · have full : ¬ (line flags e p).length ≤ room - (bytes flags done e).length := by omega
    rw [emitted, emit_cons, left, if_neg (by simpa using full)]
  · have fitting : w'.output.fitting (line flags e p) =
        (line flags e p).take (room - (bytes flags done e).length) := by
      rw [Output.fitting, left]
    rw [Written.tried, Output.taken_write, fitting, written.taken, bytes_append, bytes_cons,
      List.take_append, List.take_of_length_le behind,
      List.take_append_of_le_length (by omega), List.append_assoc]
  · rw [Written.encoded_tried, written.encoded, formats_append, List.append_assoc]

/-! ### Writing several events -/

/-- The sink of a conversion. -/
def sink (flags : Flags) (ps : Emitter) : Sink Written := fun e w => emit flags e ps w

/-- Without a bound, events are written one after the other. -/
theorem feed_of_free (free : w.output.room = none) (es : List Event) :
    ((sink flags ps).feed w es).output.taken = w.output.taken ++ es.flatMap (bytes flags ps) ∧
      ((sink flags ps).feed w es).encoded.toList =
        w.encoded.toList ++ es.flatMap fun _ => formats ps := by
  induction es generalizing w with
  | nil => simp [Sink.feed]
  | cons e es ih =>
      obtain ⟨w', emitted, behind⟩ := emit_of_fits flags e ps (w := w)
        (by simp [free])
      have next : (sink flags ps).feed w (e :: es) = (sink flags ps).feed w' es :=
        congrArg (fun r => (sink flags ps).feed r.2 es) emitted
      obtain ⟨taken, encoded⟩ := ih (w := w') (by rw [behind.room, free]; rfl)
      rw [next, taken, encoded, behind.taken, behind.encoded]
      simp

/-- Without a bound and with one, the same has been written, and the bound has not been passed. -/
structure Alike (limit : Nat) (w w' : Written) : Prop where
  free : w.output.room = none
  room : w'.output.room = some (limit - w.output.taken.length)
  within : w.output.taken.length ≤ limit
  taken : w'.output.taken = w.output.taken
  encoded : w'.encoded.toList = w.encoded.toList

theorem alike_start (limit : Nat) :
    Alike limit (.start (.new none)) (.start (.new (some limit))) :=
  ⟨rfl, rfl, Nat.zero_le limit, rfl, rfl⟩

/-- An event for which there is room is written into both. -/
theorem Alike.behind {limit : Nat} {w₁ w₁' : Written} (h : Alike limit w w')
    (fits : (bytes flags ps e).length ≤ limit - w.output.taken.length)
    (hw : Behind flags e ps w w₁) (hw' : Behind flags e ps w' w₁') : Alike limit w₁ w₁' := by
  have length : w₁.output.taken.length =
      w.output.taken.length + (bytes flags ps e).length := by
    rw [hw.taken, List.length_append]
  have within := h.within
  refine ⟨?_, ?_, by omega, ?_, ?_⟩
  · rw [hw.room, h.free, Option.map_none]
  · rw [hw'.room, h.room, Option.map_some, length, Nat.sub_sub]
  · rw [hw'.taken, hw.taken, h.taken]
  · rw [hw'.encoded, hw.encoded, h.encoded]

/-- An event that the bounded one has no room for goes beyond the bound. -/
theorem Alike.of_failed {limit : Nat} {c : EventError} (h : Alike limit w w')
    (failed : emit flags e ps w' = (.error c, w'')) :
    ∃ n done p, limit = w.output.taken.length + n ∧ DueIn flags e ps n done p ∧
      c = .io Output.fullReason ∧ n < (bytes flags ps e).length ∧
      w''.output.taken = w.output.taken ++ (bytes flags ps e).take n ∧
      w''.encoded.toList = w.encoded.toList ++ formats (done ++ [p]) := by
  by_cases fits : (bytes flags ps e).length ≤ limit - w.output.taken.length
  · obtain ⟨_, emitted, -⟩ := emit_of_fits flags e ps (w := w')
      (by simpa [h.room] using fits)
    cases failed.symm.trans emitted
  · have beyond := Nat.lt_of_not_le fits
    obtain ⟨done, p, w₁, due, emitted, taken, encoded⟩ := emit_of_not_fits h.room beyond
    cases failed.symm.trans emitted
    rw [h.taken] at taken
    rw [h.encoded] at encoded
    exact ⟨_, done, p, (Nat.add_sub_cancel' h.within).symm, due, rfl, beyond, taken, encoded⟩

theorem follows_sink (flags : Flags) (ps : Emitter) (limit : Nat) :
    (sink flags ps).Follows (sink flags ps) (Alike limit) := by
  intro w w' e alike
  obtain ⟨w₁, emitted, behind⟩ := emit_of_fits flags e ps (w := w)
    (by simp [alike.free])
  refine ⟨w₁, emitted, ?_⟩
  by_cases fits : (bytes flags ps e).length ≤ limit - w.output.taken.length
  · obtain ⟨w₁', emitted', behind'⟩ := emit_of_fits flags e ps (w := w')
      (by simpa [alike.room] using fits)
    exact .inl ⟨w₁', emitted', alike.behind fits behind behind'⟩
  · obtain ⟨_, _, w₁', -, emitted', -⟩ := emit_of_not_fits alike.room (Nat.lt_of_not_le fits)
    exact .inr ⟨_, w₁', emitted'⟩

/-! ### Runs -/

/-- Where the bound of an output ends a run, beside one into an output that has no bound.  `before`
is what both have done when it is the turn of the event `e`, and `p` is the piece of it, behind the
ones in `done`, that the byte at the bound lies in. -/
structure Interrupted (d : Decoder) (flags : Flags) (ps : Emitter) (source : Source) (limit : Nat)
    (full cut : Written) (before : Journal) (e : Event) (done : Emitter) (p : Piece) : Prop where
  /-- Without a bound, the event is taken, and others may follow. -/
  journal_full : ∃ after : Journal, d.journal (sink flags ps) (.start (.new none)) source =
    before ++ .call e (.ok ()) :: after
  /-- With it, nothing is done behind the failure. -/
  journal_cut : d.journal (sink flags ps) (.start (.new (some limit))) source =
    before ++ [.call e (.error (.io Output.fullReason))]
  /-- What is written without a bound begins with the events in `before` and this one. -/
  taken : before.events.flatMap (bytes flags ps) ++ bytes flags ps e <+: full.output.taken
  due : ∃ n, limit = (before.events.flatMap (bytes flags ps)).length + n ∧
    DueIn flags e ps n done p
  /-- Nothing is encoded behind the piece. -/
  encoded : cut.encoded.toList =
    (before.events.flatMap fun _ => formats ps) ++ formats (done ++ [p])

/-- A run into a bounded output writes what there is room for.  If that is not all, it ends with the
event that it has no room for. -/
theorem run_bounded (d : Decoder) (flags : Flags) (ps : Emitter) (source : Source) (limit : Nat) :
    let full := d.run (sink flags ps) (.start (.new none)) source
    let cut := d.run (sink flags ps) (.start (.new (some limit))) source
    cut.state.output.taken = full.state.output.taken.take limit ∧
      (full.state.output.taken.length ≤ limit ∧ cut.result = full.result ∨
        limit < full.state.output.taken.length ∧ ∃ before e done p,
          Interrupted d flags ps source limit full.state cut.state before e done p ∧
          cut.result = .error (.decode d.format before.lines.length (.io Output.fullReason))) := by
  intro full cut
  have course : Decoder.Course d (sink flags ps) .start (.start (.new none)) source _ full :=
    Decoder.course_runFrom d (sink flags ps) source .start (.start (.new none))
  obtain ⟨out, course', result, alike⟩ | ⟨before, e, c, out, broken⟩ :=
    course.followed (follows_sink flags ps limit) (alike_start limit)
  · obtain rfl : out = cut := course'.eq_run.2
    refine ⟨?_, .inl ⟨alike.within, result⟩⟩
    rw [alike.taken, List.take_of_length_le alike.within]
  · obtain rfl : out = cut := broken.course.eq_run.2
    obtain ⟨after, journal⟩ := broken.taken
    obtain ⟨t', alike, failed⟩ := broken.related
    obtain ⟨n, done, p, hlimit, due, rfl, beyond, taken, encoded⟩ := alike.of_failed failed
    have front : ((sink flags ps).feed (.start (.new none)) before.events).output.taken =
        before.events.flatMap (bytes flags ps) := (feed_of_free rfl before.events).1
    -- Without a bound, what follows the event is written behind it.
    have written : full.state.output.taken = before.events.flatMap (bytes flags ps) ++
        (bytes flags ps e ++ after.events.flatMap (bytes flags ps)) := by
      rw [course.state_eq_feed, (feed_of_free rfl _).1, journal, Journal.events_append,
        Journal.events_call, List.flatMap_append, List.flatMap_cons]
      rfl
    rw [front] at hlimit taken
    refine ⟨?_, .inr ⟨?_, before, e, done, p, ⟨⟨after, journal⟩,
      broken.course.eq_run.1.symm, ?_, ⟨n, hlimit, due⟩, ?_⟩, ?_⟩⟩
    · rw [taken, written, hlimit, List.take_length_add_append,
        List.take_append_of_le_length (Nat.le_of_lt beyond)]
    · rw [written, hlimit, List.length_append, List.length_append]
      omega
    · exact ⟨after.events.flatMap (bytes flags ps), by rw [written, List.append_assoc]⟩
    · rw [encoded, (feed_of_free rfl before.events).2]
      rfl
    · rw [broken.result, Decoder.Progress.start, Tally.zero, Nat.zero_add]

end Emitter

/-! ### Conversions -/

open Emitter

namespace Convert

variable {s : Settings} {d : Decoder} {ps : Emitter} {source : Source}

/-- A conversion that has found its codecs is a run of the decoder. -/
theorem run_of_codecs (hd : Decoder.select s.codec.decoder s.codec.decoderFormat = .ok d)
    (hps : ofSettings s.codec = .ok ps) (output : Output) :
    let out := d.run (sink s.context.flags ps) (.start output) (sourceFor s.codec.decoder source)
    (run s source output).result = out.result.mapError .decode ∧
      (run s source output).written = out.state := by
  rw [run, hd, hps]
  exact ⟨rfl, rfl⟩

/-- Without codecs nothing is written, and no bound matters. -/
theorem run_of_no_codecs {c : CodecError}
    (h : ∀ output, run s source output = ⟨.error (.codec c), .start output, []⟩) (limit : Nat) :
    let full := run s source (.new none)
    let cut := run s source (.new (some limit))
    cut.written.output.taken = full.written.output.taken.take limit ∧
      full.written.output.taken.length ≤ limit ∧ cut.result = full.result := by
  rw [h, h]
  exact ⟨List.take_nil.symm, Nat.zero_le limit, rfl⟩

/-- **A bounded output.**  A conversion writes into it what it writes into one without a bound, up
to the bound.  If that is all, the result is the same; else the conversion ends with the event that
the byte at the bound belongs to. -/
theorem run_within_room (s : Settings) (source : Source) (limit : Nat) :
    let full := run s source (.new none)
    let cut := run s source (.new (some limit))
    cut.written.output.taken = full.written.output.taken.take limit ∧
      (full.written.output.taken.length ≤ limit ∧ cut.result = full.result ∨
        limit < full.written.output.taken.length ∧ ∃ d ps before e done p,
          Decoder.select s.codec.decoder s.codec.decoderFormat = .ok d ∧
          ofSettings s.codec = .ok ps ∧
          Interrupted d s.context.flags ps (sourceFor s.codec.decoder source) limit full.written
            cut.written before e done p ∧
          cut.result =
            .error (.decode (.decode d.format before.lines.length (.io Output.fullReason)))) := by
  intro full cut
  cases hd : Decoder.select s.codec.decoder s.codec.decoderFormat with
  | error c =>
      obtain ⟨taken, within, result⟩ :=
        run_of_no_codecs (c := c) (fun output => by rw [run, hd]) limit
      exact ⟨taken, .inl ⟨within, result⟩⟩
  | ok d =>
      cases hps : ofSettings s.codec with
      | error c =>
          obtain ⟨taken, within, result⟩ :=
            run_of_no_codecs (c := c) (fun output => by rw [run, hd, hps]) limit
          exact ⟨taken, .inl ⟨within, result⟩⟩
      | ok ps =>
          obtain ⟨result_full, written_full⟩ := run_of_codecs hd hps (.new none)
          obtain ⟨result_cut, written_cut⟩ := run_of_codecs hd hps (.new (some limit))
          obtain ⟨taken, bounded⟩ :=
            run_bounded d s.context.flags ps (sourceFor s.codec.decoder source) limit
          rw [← written_full, ← written_cut] at taken bounded
          obtain ⟨within, result⟩ | ⟨beyond, before, e, done, p, interrupted, result⟩ := bounded
          · refine ⟨taken, .inl ⟨within, ?_⟩⟩
            rw [result_cut, result, ← result_full]
          · refine ⟨taken, .inr ⟨beyond, d, ps, before, e, done, p, rfl, rfl, interrupted, ?_⟩⟩
            rw [result_cut, result, mapError_error]

/-- The only event is written when all three lines have been read. -/
example :
    let s : Settings := { Settings.standard with codec := ⟨"int", "all", none, none⟩ }
    (run s (Source.ofLines ["e:", "f:a", "v:x"]) (.new (some 20))).result =
      .error (.decode (.decode "int" 3 (.io "write failed"))) := rfl

end Convert

end EventLog
