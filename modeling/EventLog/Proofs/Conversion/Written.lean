import EventLog.Convert
import EventLog.Proofs.Decoding.Offered

/-!
# What a conversion writes

An emitter makes bytes of an event (`Emitter.bytes`), and a write that succeeds has put all of its
bytes behind what the output had taken.  So a conversion that succeeds has written the bytes of the
events that its source offers, and nothing else (`Convert.run_ok`).
-/

namespace EventLog

/-- What fits is taken as a whole. -/
theorem Output.fitting_of_fits {bytes : Bytes} {o : Output}
    (fits : ∀ room ∈ o.room, bytes.length ≤ room) : o.fitting bytes = bytes := by
  rw [fitting]
  split
  · rfl
  · next room h => exact List.take_of_length_le (fits room h)

/-- A write that succeeds leaves nothing out. -/
theorem Output.taken_of_writeText {t : Text} {o : Output} (h : (o.writeText t).1 = true) :
    (o.writeText t).2.taken = o.taken ++ Utf8.encode t := by
  have fits : ∀ room ∈ o.room, (Utf8.encode t).length ≤ room := by
    intro room hroom
    simpa [writeText, write, Option.mem_def.mp hroom] using h
  rw [writeText, taken_write, fitting_of_fits fits]

namespace Emitter

variable {flags : Flags} {e : Event} {es : List Event} {ps : Emitter} {w w' : Written}

/-- What is written for an event. -/
def bytes (flags : Flags) (ps : Emitter) (e : Event) : Bytes :=
  ps.flatMap fun p => Utf8.encode (pieceText flags e p)

theorem taken_of_emit (h : emit flags e ps w = (.ok (), w')) :
    w'.output.taken = w.output.taken ++ bytes flags ps e := by
  induction ps generalizing w with
  | nil =>
      cases h
      simp [bytes]
  | cons p ps ih =>
      rw [emit] at h
      cases hdone : (w.output.writeText (pieceText flags e p)).1 with
      | false => simp [hdone] at h
      | true =>
          simp only [hdone, if_true] at h
          rw [ih h, Output.taken_of_writeText hdone]
          simp [bytes]

theorem taken_of_takes (h : Sink.Takes (fun e w => emit flags e ps w) w es w') :
    w'.output.taken = w.output.taken ++ es.flatMap (bytes flags ps) := by
  induction h with
  | nil => simp
  | cons taken _ ih => rw [ih, taken_of_emit taken, List.flatMap_cons, List.append_assoc]

end Emitter

/-- **A conversion that succeeds** has found its codecs, and has written the bytes of each event
that the source offers. -/
theorem Convert.run_ok {s : Settings} {source : Source} {output : Output} {n : Nat}
    (h : (run s source output).result = .ok n) :
    ∃ d ps, Decoder.select s.codec.decoder s.codec.decoderFormat = .ok d ∧
      Emitter.ofSettings s.codec = .ok ps ∧
      n = (d.offered (sourceFor s.codec.decoder source)).length ∧
      (run s source output).written.output.taken =
        output.taken ++
          (d.offered (sourceFor s.codec.decoder source)).flatMap
            (Emitter.bytes s.context.flags ps) := by
  rw [run] at h ⊢
  cases hd : Decoder.select s.codec.decoder s.codec.decoderFormat with
  | error c => simp [hd] at h
  | ok d =>
      cases hps : Emitter.ofSettings s.codec with
      | error c => simp [hd, hps] at h
      | ok ps =>
          simp only [hd, hps] at h ⊢
          obtain ⟨hlen, htakes⟩ := Decoder.run_ok (mapError_eq_ok_iff.mp h)
          exact ⟨d, ps, rfl, rfl, hlen, Emitter.taken_of_takes htakes⟩

end EventLog
