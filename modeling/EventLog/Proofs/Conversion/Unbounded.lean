import EventLog.Proofs.Conversion.Bounded

/-!
# Conversions into an output without a bound

What a conversion writes does not act back on what it decodes: into an output without a bound, its
sink gives the same answers as one that only keeps the events (`Emitter.agrees_recorder`).

* `Convert.run_eq_decoded`: once there is an encoder, the result is that of the decoding alone, and
  what is written are the lines of the decoded events, one write for each (`Convert.decoded`).
-/

namespace EventLog

namespace Emitter

variable {w : Written}

/-- Each line of some events has been written, one write for each, and there is no bound. -/
structure Records (flags : Flags) (ps : Emitter) (es : List Event) (w : Written) : Prop where
  free : w.output.room = none
  written : w.output.written.toList = es.flatMap fun e => ps.map (line flags e)

theorem written_emit (flags : Flags) (e : Event) (ps : Emitter) (free : w.output.room = none) :
    ∃ w', emit flags e ps w = (.ok (), w') ∧ w'.output.room = none ∧
      w'.output.written.toList = w.output.written.toList ++ ps.map (line flags e) := by
  induction ps generalizing w with
  | nil => exact ⟨w, rfl, free, by simp⟩
  | cons p ps ih =>
      have tried : (w.tried flags e p).output.room = none ∧
          (w.tried flags e p).output.written.toList =
            w.output.written.toList ++ [line flags e p] := by
        simp [Written.tried, Output.write, Output.fitting, free]
      obtain ⟨w', emitted, free', written⟩ := ih tried.1
      refine ⟨w', (emit_cons_of_fits (by simp [free])).trans emitted, free', ?_⟩
      rw [written, tried.2, List.append_assoc, List.map_cons, List.singleton_append]

/-- Without a bound, writing an event never fails. -/
theorem agrees_recorder (flags : Flags) (ps : Emitter) :
    (sink flags ps).Agrees Sink.recorder (Records flags ps) := by
  intro es w e records
  obtain ⟨w', emitted, free, written⟩ := written_emit flags e ps records.free
  refine ⟨_, _, w', rfl, emitted, free, ?_⟩
  rw [written, records.written, List.flatMap_append, List.flatMap_singleton]

theorem records_start (flags : Flags) (ps : Emitter) :
    Records flags ps [] (.start (.new none)) :=
  ⟨rfl, rfl⟩

theorem Records.taken {flags : Flags} {ps : Emitter} {es : List Event}
    (h : Records flags ps es w) : w.output.taken = es.flatMap (bytes flags ps) := by
  rw [Output.taken, h.written, List.flatten_eq_flatMap, List.flatMap_assoc]
  refine congrArg es.flatMap (funext fun e => ?_)
  rw [List.flatMap_map]
  rfl

end Emitter

/-! ### Conversions -/

namespace Convert

/-- How a conversion ends that has an encoder, and the events that it comes upon. -/
def decoded (s : Settings) (source : Source) : Except CommandError Nat × List Event :=
  match Decoder.select s.codec.decoder s.codec.decoderFormat with
  | .error c => (.error (.codec c), [])
  | .ok d    =>
    let out := d.run Sink.recorder [] (sourceFor s.codec.decoder source)
    (out.result.mapError .decode, out.state)

/-- A conversion that has an encoder writes the lines of what is decoded. -/
theorem run_eq_decoded {s : Settings} {ps : Emitter} (hps : Emitter.ofSettings s.codec = .ok ps)
    (source : Source) :
    (run s source (.new none)).result = (decoded s source).1 ∧
      Emitter.Records s.context.flags ps (decoded s source).2
        (run s source (.new none)).written := by
  rw [decoded]
  cases hd : Decoder.select s.codec.decoder s.codec.decoderFormat with
  | error c =>
      rw [run, hd]
      exact ⟨rfl, Emitter.records_start s.context.flags ps⟩
  | ok d =>
      obtain ⟨same, records⟩ := Decoder.run_agrees (Emitter.agrees_recorder s.context.flags ps) d
        (sourceFor s.codec.decoder source) (Emitter.records_start s.context.flags ps)
      obtain ⟨result, written⟩ := run_of_codecs hd hps (.new none)
      exact ⟨by rw [result, same], written ▸ records⟩

/-- As many events are counted as there are. -/
theorem length_of_decoded {s : Settings} {source : Source} {n : Nat}
    (h : (decoded s source).1 = .ok n) : n = (decoded s source).2.length := by
  rw [decoded] at h ⊢
  cases hd : Decoder.select s.codec.decoder s.codec.decoderFormat with
  | error c => simp [hd] at h
  | ok d =>
      simp only [hd] at h ⊢
      obtain ⟨hlen, htakes⟩ := Decoder.run_ok (mapError_eq_ok_iff.mp h)
      rw [htakes.eq_append, hlen, List.nil_append]

end Convert

end EventLog
