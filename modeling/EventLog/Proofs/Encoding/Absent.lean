import EventLog.Encoder.Layout

/-!
# Characters that an encoding keeps out

A layout that puts a character into no entry, and not between entries either, writes it nowhere
(`notMem_render`).  Structured data keeps out line feeds and NUL, whatever the texts of an event are
(`notMem_structuredData`).
-/

namespace EventLog

variable {x : Char}

/-- Structured data writes line feeds and NUL as escapes. -/
theorem Escape.notMem_structured (hx : x = '\n' ∨ x = '\x00') (t : Text) : x ∉ structured t := by
  have char (c : Char) : x ∉ structuredChar c := by
    fun_cases structuredChar c <;> rcases hx with rfl | rfl <;> simp_all [eq_comm]
  simp [structured, char]

theorem notMem_intercalate {α : Type} {a : α} {sep : List α} (hsep : a ∉ sep)
    {ls : List (List α)} (hls : ∀ l ∈ ls, a ∉ l) : a ∉ sep.intercalate ls := by
  match ls with
  | [] => simp
  | [l] => simpa using hls
  | l :: l' :: ls =>
      rw [List.forall_mem_cons] at hls
      simpa [hsep, hls.1] using notMem_intercalate hsep hls.2

theorem notMem_commaList_map (hx : x ≠ ',') {escape : Text → Text} (h : ∀ t, x ∉ escape t)
    (ts : List Text) : x ∉ Text.commaList (ts.map escape) :=
  notMem_intercalate (by simpa using hx) (by simpa using fun t _ => h t)

namespace Layout

/-- A layout that puts a character into no entry, and not between entries, writes it nowhere. -/
theorem notMem_render {l : Layout} (frame : x ∉ l.opening ++ l.closing)
    (arrange : ∀ compact ts, (∀ t ∈ ts, x ∉ t) → x ∉ l.arrange compact ts)
    (tagsEntry : ∀ tags, x ∉ l.tagsEntry tags)
    (fieldEntry : ∀ compact f, x ∉ l.fieldEntry compact f) (flags : Flags) (e : Event) :
    x ∉ l.render flags e := by
  have entries : ∀ t ∈ l.entries flags e, x ∉ t := by
    intro t ht
    simp only [entries, List.mem_append, Option.mem_toList, Option.map_eq_some_iff,
      List.mem_map] at ht
    obtain ⟨tags, -, rfl⟩ | ⟨f, -, rfl⟩ := ht
    · exact tagsEntry tags
    · exact fieldEntry _ f
  have arranged := arrange flags.ultraCompact _ entries
  simp only [render, List.mem_append, not_or] at frame ⊢
  exact ⟨⟨frame.1, arranged⟩, frame.2⟩

theorem notMem_parameter (hx : x = '\n' ∨ x = '\x00') (name : Text) (ts : List Text) :
    x ∉ parameter name ts := by
  have comma : x ≠ ',' := by rcases hx with rfl | rfl <;> decide
  have marks : x ∉ "=\"".toList ∧ x ∉ "\"".toList := by rcases hx with rfl | rfl <;> decide
  simp only [parameter, List.mem_append, not_or]
  exact ⟨⟨⟨Escape.notMem_structured hx name, marks.1⟩,
    notMem_commaList_map comma (Escape.notMem_structured hx) ts⟩, marks.2⟩

theorem notMem_structuredData (hx : x = '\n' ∨ x = '\x00') (flags : Flags) (e : Event) :
    x ∉ structuredData.render flags e := by
  have frame : x ∉ structuredData.opening ++ structuredData.closing := by
    rcases hx with rfl | rfl <;> decide
  have blank : x ≠ ' ' := by rcases hx with rfl | rfl <;> decide
  refine notMem_render frame (fun _ ts hts => ?_) (notMem_parameter hx _)
    (fun _ f => notMem_parameter hx _ _) flags e
  simpa [structuredData, blank] using hts

end Layout

end EventLog
