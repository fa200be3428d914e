import EventLog.Json.Reader

/-!
# Values and their tokens

`Json.tokens` are the tokens that write a value.  The reader keeps open what it has begun, so what
it makes of these tokens is said for every state in which a value may come.

* `ofTokens?_tokens`: a value that is not nested too deeply is read from its tokens.
* `tokens_injective`: a value is the only one that is written with its tokens, however deeply it is
  nested.
-/

namespace EventLog.Json

mutual

/-- The tokens of a value. -/
def tokens : Json → List JsonToken
  | array items    => .openArray :: [.comma].intercalate (itemTokens items) ++ [.closeArray]
  | object members => .openObject :: [.comma].intercalate (memberTokens members) ++ [.closeObject]
  | string t       => [.text t]
  | null           => [.scalar null]
  | bool b         => [.scalar (bool b)]
  | number n       => [.scalar (number n)]

/-- The tokens of each item. -/
def itemTokens : List Json → List (List JsonToken)
  | []      => []
  | v :: vs => v.tokens :: itemTokens vs

/-- The tokens of each member. -/
def memberTokens : List (Text × Json) → List (List JsonToken)
  | []           => []
  | (k, v) :: ms => (.text k :: .colon :: v.tokens) :: memberTokens ms

end

mutual

/-- How many arrays and objects stand inside each other. -/
def depth : Json → Nat
  | array items    => itemDepth items + 1
  | object members => memberDepth members + 1
  | _              => 0

/-- The greatest depth of an item. -/
def itemDepth : List Json → Nat
  | []      => 0
  | v :: vs => max v.depth (itemDepth vs)

/-- The greatest depth of the value of a member. -/
def memberDepth : List (Text × Json) → Nat
  | []           => 0
  | (_, v) :: ms => max v.depth (memberDepth ms)

end

theorem itemTokens_eq_map (vs : List Json) : itemTokens vs = vs.map tokens := by
  induction vs with
  | nil => rfl
  | cons v vs ih => rw [itemTokens, ih, List.map_cons]

theorem memberTokens_eq_map (ms : List (Text × Json)) :
    memberTokens ms = ms.map fun (k, v) => .text k :: .colon :: v.tokens := by
  induction ms with
  | nil => rfl
  | cons m ms ih => rw [memberTokens, ih, List.map_cons]

theorem itemDepth_le {n : Nat} {vs : List Json} (h : ∀ v ∈ vs, v.depth ≤ n) :
    itemDepth vs ≤ n := by
  induction vs with
  | nil => exact Nat.zero_le n
  | cons v vs ih =>
      simp only [List.forall_mem_cons] at h
      exact Nat.max_le.mpr ⟨h.1, ih h.2⟩

theorem memberDepth_le {n : Nat} {ms : List (Text × Json)} (h : ∀ m ∈ ms, m.2.depth ≤ n) :
    memberDepth ms ≤ n := by
  induction ms with
  | nil => exact Nat.zero_le n
  | cons m ms ih =>
      simp only [List.forall_mem_cons] at h
      exact Nat.max_le.mpr ⟨h.1, ih h.2⟩

/-- Induction over a value, for every item and for the value of every member at once. -/
theorem induction {P : Json → Prop} (null : P .null) (bool : ∀ b, P (.bool b))
    (number : ∀ n, P (.number n)) (string : ∀ t, P (.string t))
    (array : ∀ vs, (∀ v ∈ vs, P v) → P (.array vs))
    (object : ∀ ms, (∀ m ∈ ms, P m.2) → P (.object ms)) (v : Json) : P v :=
  @Json.rec P (fun vs => ∀ v ∈ vs, P v) (fun ms => ∀ m ∈ ms, P m.2) (fun m => P m.2) null bool
    number string array object (fun _ h => nomatch h)
    (fun _ _ hv hvs => List.forall_mem_cons.mpr ⟨hv, hvs⟩) (fun _ h => nomatch h)
    (fun _ _ hm hms => List.forall_mem_cons.mpr ⟨hm, hms⟩) (fun _ _ hv => hv) v

/-! ### Reading -/

theorem run_cons {s s' : State} {token : JsonToken} (h : step s token = some s')
    (rest : List JsonToken) : run s (token :: rest) = run s' rest := by
  rw [run, h]
  rfl

theorem step_openArray {frames : List Frame} (h : frames.length < maxDepth) :
    step ⟨frames, .value⟩ .openArray = some ⟨.array [] :: frames, .firstItem⟩ :=
  if_pos h

theorem step_openObject {frames : List Frame} (h : frames.length < maxDepth) :
    step ⟨frames, .value⟩ .openObject = some ⟨.object [] [] :: frames, .firstName⟩ :=
  if_pos h

/-- In front of the first item, items are read as in front of any other. -/
theorem run_firstItem (v : Json) (vs : List Json) (frames : List Frame) (frame : Frame)
    (rest : List JsonToken) :
    run ⟨frame :: frames, .firstItem⟩
        ([JsonToken.comma].intercalate (itemTokens (v :: vs)) ++ rest) =
      run ⟨frame :: frames, .value⟩
        ([JsonToken.comma].intercalate (itemTokens (v :: vs)) ++ rest) := by
  have alone : ∀ rest, run ⟨frame :: frames, .firstItem⟩ (v.tokens ++ rest) =
      run ⟨frame :: frames, .value⟩ (v.tokens ++ rest) := by
    intro rest
    cases v <;> rfl
  cases vs with
  | nil =>
      rw [itemTokens, itemTokens, List.intercalate_singleton]
      exact alone rest
  | cons w vs =>
      rw [itemTokens, itemTokens, List.intercalate_cons_cons, List.append_assoc,
        List.append_assoc]
      exact alone _

/-- In front of the first name, members are read as in front of any other. -/
theorem run_firstName (m : Text × Json) (ms : List (Text × Json)) (frames : List Frame)
    (frame : Frame) (rest : List JsonToken) :
    run ⟨frame :: frames, .firstName⟩
        ([JsonToken.comma].intercalate (memberTokens (m :: ms)) ++ rest) =
      run ⟨frames, .nextName []⟩
        ([JsonToken.comma].intercalate (memberTokens (m :: ms)) ++ rest) := by
  cases ms <;> rfl

mutual

/-- A value is read from its tokens, where a value may come. -/
theorem run_tokens :
    ∀ (v : Json) (frames : List Frame) (rest : List JsonToken),
      frames.length + v.depth ≤ maxDepth →
      run ⟨frames, .value⟩ (v.tokens ++ rest) = run ⟨frames, .continuation v⟩ rest
  | .array [], frames, rest, h => by
      rw [depth] at h
      exact (run_cons (step_openArray (by omega)) _).trans (run_cons rfl _)
  | .array (v :: vs), frames, rest, h => by
      rw [depth] at h
      rw [tokens, List.append_assoc, List.cons_append, run_cons (step_openArray (by omega)),
        run_firstItem, List.singleton_append,
        run_items (v :: vs) [] frames rest (by simp) (by omega)]
      rfl
  | .object [], frames, rest, h => by
      rw [depth] at h
      exact (run_cons (step_openObject (by omega)) _).trans (run_cons rfl _)
  | .object (m :: ms), frames, rest, h => by
      rw [depth] at h
      rw [tokens, List.append_assoc, List.cons_append, run_cons (step_openObject (by omega)),
        run_firstName, List.singleton_append,
        run_members (m :: ms) [] frames rest (by simp) (by omega)]
      rfl
  | .string t, frames, rest, h => rfl
  | .null, frames, rest, h => rfl
  | .bool _, frames, rest, h => rfl
  | .number _, frames, rest, h => rfl

/-- The items of an array are read from their tokens, behind others. -/
theorem run_items :
    ∀ (items done : List Json) (frames : List Frame) (rest : List JsonToken), items ≠ [] →
      frames.length + 1 + itemDepth items ≤ maxDepth →
      run ⟨.array done :: frames, .value⟩
          ([JsonToken.comma].intercalate (itemTokens items) ++ .closeArray :: rest) =
        run ⟨frames, .continuation (.array (done.reverse ++ items))⟩ rest
  | [v], done, frames, rest, _, h => by
      rw [itemDepth] at h
      rw [itemTokens, itemTokens, List.intercalate_singleton,
        run_tokens v _ _ (by simp only [List.length_cons]; omega), run_cons rfl]
      simp
  | v :: w :: vs, done, frames, rest, _, h => by
      rw [itemDepth] at h
      rw [itemTokens, itemTokens, List.intercalate_cons_cons, ← itemTokens, List.append_assoc,
        List.append_assoc, run_tokens v _ _ (by simp only [List.length_cons]; omega),
        List.singleton_append, run_cons rfl,
        run_items (w :: vs) (v :: done) frames rest (by simp) (by omega)]
      simp

/-- The members of an object are read from their tokens, behind others. -/
theorem run_members :
    ∀ (members done : List (Text × Json)) (frames : List Frame) (rest : List JsonToken),
      members ≠ [] → frames.length + 1 + memberDepth members ≤ maxDepth →
      run ⟨frames, .nextName done⟩
          ([JsonToken.comma].intercalate (memberTokens members) ++ .closeObject :: rest) =
        run ⟨frames, .continuation (.object (done.reverse ++ members))⟩ rest
  | [(k, v)], done, frames, rest, _, h => by
      rw [memberDepth] at h
      rw [memberTokens, memberTokens, List.intercalate_singleton, List.cons_append,
        List.cons_append, run_cons rfl, run_cons rfl,
        run_tokens v _ _ (by simp only [List.length_cons]; omega), run_cons rfl]
      simp
  | (k, v) :: m :: ms, done, frames, rest, _, h => by
      rw [memberDepth] at h
      rw [memberTokens, memberTokens, List.intercalate_cons_cons, ← memberTokens,
        List.append_assoc, List.append_assoc, List.cons_append, List.cons_append, run_cons rfl,
        run_cons rfl, run_tokens v _ _ (by simp only [List.length_cons]; omega),
        List.singleton_append, run_cons rfl,
        run_members (m :: ms) ((k, v) :: done) frames rest (by simp) (by omega)]
      simp

end

/-- **A value is read from its tokens**, unless it is nested too deeply. -/
theorem ofTokens?_tokens {v : Json} (h : v.depth ≤ maxDepth) : ofTokens? v.tokens = some v := by
  have := run_tokens v [] [] (by simpa using h)
  rw [List.append_nil] at this
  rw [ofTokens?, this]
  rfl

/-! ### Told apart -/

section

variable {α : Type} {tokens : α → List JsonToken} {close : JsonToken}

/-- The tokens of further items, each behind a comma, up to what closes them. -/
def behind (tokens : α → List JsonToken) (close : JsonToken) (ks : List JsonToken) :
    List α → List JsonToken
  | []      => close :: ks
  | a :: as => .comma :: (tokens a ++ behind tokens close ks as)

theorem intercalate_eq_behind (a : α) (as : List α) (ks : List JsonToken) :
    [JsonToken.comma].intercalate ((a :: as).map tokens) ++ close :: ks =
      tokens a ++ behind tokens close ks as := by
  induction as generalizing a with
  | nil => simp [behind]
  | cons b as ih =>
      have further := ih b
      simp only [List.map_cons] at further
      rw [List.map_cons, List.map_cons, List.intercalate_cons_cons, List.append_assoc, further,
        List.append_assoc, List.singleton_append, behind]

/-- The tokens of a thing and what stands behind them, whatever that is, tell which thing it is. -/
def Apart (tokens : α → List JsonToken) (a : α) : Prop :=
  ∀ a' ks ks', tokens a ++ ks = tokens a' ++ ks' → a = a' ∧ ks = ks'

theorem behind_inj (hclose : JsonToken.comma ≠ close) {ks ks' : List JsonToken} :
    ∀ {as as' : List α}, (∀ a ∈ as, Apart tokens a) →
      behind tokens close ks as = behind tokens close ks' as' → as = as' ∧ ks = ks'
  | [], [], _, h => ⟨rfl, (List.cons.inj h).2⟩
  | [], _ :: _, _, h => absurd (List.cons.inj h).1.symm hclose
  | _ :: _, [], _, h => absurd (List.cons.inj h).1 hclose
  | a :: as, a' :: as', ha, h => by
      rw [List.forall_mem_cons] at ha
      obtain ⟨rfl, further⟩ := ha.1 a' _ _ (List.cons.inj h).2
      obtain ⟨rfl, rfl⟩ := behind_inj hclose ha.2 further
      exact ⟨rfl, rfl⟩

/-- Items are told apart by their tokens with commas between them, if nothing of them is taken for
what closes them. -/
theorem intercalate_inj (hclose : JsonToken.comma ≠ close)
    (hne : ∀ a ks ks', tokens a ++ ks ≠ close :: ks') {ks ks' : List JsonToken} {as as' : List α}
    (ha : ∀ a ∈ as, Apart tokens a)
    (h : [JsonToken.comma].intercalate (as.map tokens) ++ close :: ks =
      [JsonToken.comma].intercalate (as'.map tokens) ++ close :: ks') :
    as = as' ∧ ks = ks' := by
  match as, as' with
  | [], [] => exact ⟨rfl, (List.cons.inj h).2⟩
  | [], a' :: as' =>
      rw [intercalate_eq_behind] at h
      exact absurd h.symm (hne a' _ ks)
  | a :: as, [] =>
      rw [intercalate_eq_behind] at h
      exact absurd h (hne a _ ks')
  | a :: as, a' :: as' =>
      rw [intercalate_eq_behind, intercalate_eq_behind] at h
      rw [List.forall_mem_cons] at ha
      obtain ⟨rfl, further⟩ := ha.1 a' _ _ h
      obtain ⟨rfl, rfl⟩ := behind_inj hclose ha.2 further
      exact ⟨rfl, rfl⟩

end

/-- No value begins with the end of an array. -/
theorem tokens_ne_closeArray (v : Json) (ks ks' : List JsonToken) :
    v.tokens ++ ks ≠ .closeArray :: ks' := by
  cases v <;> simp [tokens]

/-- What stands behind the tokens of a value is never taken for a part of it. -/
theorem apart_tokens (v : Json) : Apart tokens v := by
  -- A value of another kind begins with another token.
  induction v using Json.induction with
  | null | bool | number | string =>
      rintro (_ | _ | _ | _ | _ | _) ks ks' h <;> simp_all [tokens]
  | array vs ih =>
      rintro (_ | _ | _ | _ | vs' | _) ks ks' h
      case array =>
        simp only [tokens, itemTokens_eq_map, List.cons_append, List.append_assoc,
          List.nil_append, List.cons.injEq, true_and] at h
        obtain ⟨rfl, rfl⟩ := intercalate_inj (by simp) tokens_ne_closeArray ih h
        exact ⟨rfl, rfl⟩
      all_goals simp [tokens] at h
  | object ms ih =>
      rintro (_ | _ | _ | _ | _ | ms') ks ks' h
      case object =>
        simp only [tokens, memberTokens_eq_map, List.cons_append, List.append_assoc,
          List.nil_append, List.cons.injEq, true_and] at h
        -- A member is told apart if its value is, for its name is a single token.
        have members : ∀ m ∈ ms, Apart (fun m => .text m.1 :: .colon :: m.2.tokens) m := by
          intro m hm m' ks ks' h
          simp only [List.cons_append, List.cons.injEq, JsonToken.text.injEq, true_and] at h
          obtain ⟨hv, rfl⟩ := ih m hm _ _ _ h.2
          exact ⟨Prod.ext h.1 hv, rfl⟩
        obtain ⟨rfl, rfl⟩ := intercalate_inj (by simp) (by simp) members h
        exact ⟨rfl, rfl⟩
      all_goals simp [tokens] at h

/-- **A value is told by its tokens.** -/
theorem tokens_injective : Function.Injective tokens := by
  intro v v' h
  exact (apart_tokens v v' [] [] (by rw [h])).1

end EventLog.Json
