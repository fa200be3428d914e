import EventLog.Proofs.Decoding.Scan
import EventLog.Proofs.Decoding.Tokens
import EventLog.Proofs.Primitive.Position
import EventLog.Proofs.Text.Utf8
import Mathlib.Logic.Relation

/-!
# Positions of tokens

The tokens of an access log line can be looked for in its bytes, from a position on: the spaces are
passed over, then the bytes up to the one that ends the token (`Apache.scan`).  The token is the
text between two positions of the line (`Apache.tokenAt?`).  Nothing comes of a call that looks at a
byte behind the end, or takes a text that begins or ends inside a character.

That never happens where calls lead from the beginning of a line, for a byte that ends a token is a
character of its own.  There a call finds the token that is at the front of the characters left
(`Call`), and moves behind what ends it.  So the events that are read in this way are the events of
the lines (`eventAt?_eq`), and a run over them is the run of the decoder (`runAt?_eq`).

* `calls_advance`: what calls that follow one another do, and what a run over lines comes to.
-/

namespace EventLog

namespace Text

/-- The text between two positions; nothing to be had unless both are good and in order. -/
def slice? (t : Text) (start stop : Nat) : Option Text :=
  if start ≤ stop then do
    let inside ← dropBytes? start t
    let behind ← dropBytes? (stop - start) inside
    return inside.take (inside.length - behind.length)
  else none

/-- What is had stands between the two positions. -/
theorem slice?_eq_some_iff {t word : Text} {start stop : Nat} :
    t.slice? start stop = some word ↔
      ∃ front rest, t = front ++ (word ++ rest) ∧ front.size = start ∧
        (front ++ word).size = stop := by
  constructor
  · intro h
    rw [slice?] at h
    split at h
    · next ordered =>
        obtain ⟨inside, hinside, hinner⟩ := Option.bind_eq_some_iff.mp h
        obtain ⟨behind, hbehind, htake⟩ := Option.bind_eq_some_iff.mp hinner
        obtain ⟨front, rfl, rfl⟩ := exists_of_dropBytes? hinside
        obtain ⟨between, rfl, hsize⟩ := exists_of_dropBytes? hbehind
        obtain rfl : between = word := by simpa using htake
        exact ⟨front, behind, rfl, rfl, by rw [size_append, hsize]; omega⟩
    · cases h
  · rintro ⟨front, rest, rfl, rfl, rfl⟩
    have ordered : front.size ≤ (front ++ word).size := by rw [size_append]; omega
    have between : (front ++ word).size - front.size = word.size := by rw [size_append]; omega
    rw [slice?, if_pos ordered, dropBytes?_size, between]
    simp [dropBytes?_size]

/-- A text is only had between good positions. -/
theorem boundary_of_slice? {t word : Text} {start stop : Nat}
    (h : t.slice? start stop = some word) : t.Boundary start ∧ t.Boundary stop := by
  obtain ⟨front, rest, rfl, rfl, rfl⟩ := slice?_eq_some_iff.mp h
  exact ⟨⟨front, word ++ rest, rfl, rfl⟩, front ++ word, rest, (List.append_assoc ..).symm, rfl⟩

end Text

namespace Apache

/-! ### Looking at bytes -/

/-- The first position from one on whose byte is not passed over, or the end. -/
def passOver (passed : UInt8 → Bool) (bytes : Bytes) (i : Nat) : Nat :=
  if h : i < bytes.length then
    if passed bytes[i] then passOver passed bytes (i + 1) else i
  else i
termination_by bytes.length - i

theorem passOver_append {passed : UInt8 → Bool} {rest : Bytes}
    (hrest : ∀ b ∈ rest.head?, passed b = false) :
    ∀ {word : Bytes}, (∀ b ∈ word, passed b) → ∀ front : Bytes,
      passOver passed (front ++ (word ++ rest)) front.length = (front ++ word).length
  | [], _, front => by
      rw [passOver]
      cases rest with
      | nil => simp
      | cons b rest => simp [hrest b rfl]
  | b :: word, hword, front => by
      rw [List.forall_mem_cons] at hword
      have next := passOver_append hrest hword.2 (front ++ [b])
      rw [passOver]
      simpa [hword.1] using next

/-- What a look from a position on finds. -/
inductive Seen where
  /-- The position is behind the end. -/
  | outside
  /-- Only spaces are left, up to this position. -/
  | blank (next : Nat)
  /-- A token from one position to another, and the position behind what ends it. -/
  | token (start stop next : Nat)
deriving Repr, DecidableEq

/-- The byte that ends a token, by the byte that is found first, and how many bytes are in front of
the token. -/
def closingByte (b : UInt8) : UInt8 × Nat :=
  if b = 0x22 then (0x22, 1) else if b = 0x5B then (0x5D, 1) else (0x20, 0)

/-- Looks for a token from a position on. -/
def scan (bytes : Bytes) (offset : Nat) : Seen :=
  let i := passOver (· == 0x20) bytes offset
  if i = bytes.length then .blank i
  else
    match bytes[i]? with
    | none   => .outside
    | some b =>
      let (close, opening) := closingByte b
      let stop := passOver (· != close) bytes (i + opening)
      .token (i + opening) stop (if stop < bytes.length then stop + 1 else stop)

/-- One call: the token that is found from a position on, if any, and the position behind it. -/
def tokenAt? (line : Text) (offset : Nat) : Option (Option Text × Nat) :=
  match scan (Utf8.encode line) offset with
  | .outside               => none
  | .blank next            => some (none, next)
  | .token start stop next =>
    (line.slice? start stop).map fun token => (some (blankDash token), next)

/-! ### One call -/

section

variable {passed : UInt8 → Bool} {word rest : Text}

/-- A text is passed over if all its bytes are, but not the next one. -/
theorem passOver_encode (hword : ∀ b ∈ Utf8.encode word, passed b)
    (hrest : ∀ b ∈ (Utf8.encode rest).head?, passed b = false) (front : Text) :
    passOver passed (Utf8.encode (front ++ (word ++ rest))) front.size = (front ++ word).size := by
  have crossed := passOver_append hrest hword (Utf8.encode front)
  rwa [← Utf8.encode_append, ← Utf8.encode_append, ← Utf8.encode_append, Utf8.length_encode,
    Utf8.length_encode] at crossed

/-- Up to a character below 0x80, or to the end. -/
theorem passOver_ne {c : Char} (hc : c.toNat < 0x80) (hword : c ∉ word)
    (hrest : rest.head?.all (· = c)) (front : Text) :
    passOver (· != UInt8.ofNat c.toNat) (Utf8.encode (front ++ (word ++ rest))) front.size =
      (front ++ word).size := by
  refine passOver_encode (fun b hb => ?_) (fun b hb => ?_) front
  · rw [bne_iff_ne]
    rintro rfl
    exact hword ((Utf8.mem_encode hc word).mp hb)
  · cases rest with
    | nil => cases hb
    | cons d rest =>
        obtain rfl : d = c := by simpa using hrest
        rw [(Utf8.head?_encode hc).mpr rfl] at hb
        simpa using hb.symm

end

theorem encode_spaces (n : Nat) : ∀ b ∈ Utf8.encode (spaces n), b == (0x20 : UInt8) := by
  intro b hb
  obtain ⟨c, hc, hb⟩ := List.mem_flatMap.mp hb
  obtain rfl := List.eq_of_mem_replicate hc
  obtain rfl := List.mem_singleton.mp hb
  rfl

/-- Over spaces. -/
theorem passOver_spaces (front : Text) (n : Nat) {rest : Text} (hrest : rest.head? ≠ some ' ') :
    passOver (· == 0x20) (Utf8.encode (front ++ (spaces n ++ rest))) front.size =
      (front ++ spaces n).size := by
  refine passOver_encode (encode_spaces n) (fun b hb => ?_) front
  rw [beq_eq_false_iff_ne]
  rintro rfl
  exact hrest ((Utf8.head?_encode (a := ' ') (by decide)).mp hb)

theorem scan_spaces (front : Text) (n : Nat) :
    scan (Utf8.encode (front ++ spaces n)) front.size = .blank (front ++ spaces n).size := by
  have crossed := passOver_spaces front n (nofun : ([] : Text).head? ≠ some ' ')
  rw [List.append_nil] at crossed
  simp only [scan, crossed, Utf8.length_encode, if_true]

/-- The character that ends a token is taken with it, if there is one. -/
theorem size_append_take {close : Char} (ascii : close.toNat < 0x80) (front : Text) {behind : Text}
    (ends : behind.head?.all (· = close)) :
    (if front.size < (front ++ behind).size then front.size + 1 else front.size) =
      (front ++ behind.take 1).size := by
  cases behind with
  | nil => simp
  | cons c behind =>
      obtain rfl : c = close := by simpa using ends
      have one : c.utf8Size = 1 := Char.utf8Size_eq_one_iff.mpr (Nat.le_of_lt_succ ascii)
      simp [one]

/-- A token behind some spaces, and perhaps behind a character that opens it. -/
theorem scan_token (front : Text) (n : Nat) {opening token behind : Text} {b : UInt8} {close : Char}
    (first : (Utf8.encode (opening ++ (token ++ behind))).head? = some b) (space : b ≠ 0x20)
    (closing : closingByte b = (UInt8.ofNat close.toNat, opening.size)) (ascii : close.toNat < 0x80)
    (inside : close ∉ token) (ends : behind.head?.all (· = close)) :
    scan (Utf8.encode (front ++ (spaces n ++ opening ++ (token ++ behind)))) front.size =
      .token (front ++ (spaces n ++ opening)).size (front ++ (spaces n ++ opening) ++ token).size
        (front ++ (spaces n ++ opening) ++ token ++ behind.take 1).size := by
  have head : (opening ++ (token ++ behind)).head? ≠ some ' ' := fun h =>
    space (Option.some.inj (first.symm.trans ((Utf8.head?_encode (a := ' ') (by decide)).mpr h)))
  have crossed := passOver_spaces front n head
  have found : (Utf8.encode (front ++ (spaces n ++ (opening ++ (token ++ behind)))))[
      (front ++ spaces n).size]? = some b := by
    rw [← List.append_assoc, Utf8.encode_append, ← Utf8.length_encode,
      List.getElem?_append_right (Nat.le_refl _), Nat.sub_self, ← List.head?_eq_getElem?, first]
  have further := Nat.ne_of_lt (List.getElem?_eq_some_iff.mp found).1
  have start : (front ++ spaces n).size + opening.size = (front ++ (spaces n ++ opening)).size := by
    rw [← Text.size_append, List.append_assoc]
  have upTo := passOver_ne ascii inside ends (front ++ (spaces n ++ opening))
  have next := size_append_take ascii (front ++ (spaces n ++ opening) ++ token) ends
  rw [Utf8.length_encode] at further
  simp only [List.append_assoc] at upTo next start ⊢
  simp only [scan, crossed, found, if_neg further, closing, start, upTo, Utf8.length_encode, next]

/-- A call between two texts of a line reads the second one. -/
inductive Call (front : Text) : Text → Prop where
  /-- Only spaces are left. -/
  | blank {rest : Text} (read : nextToken rest = none)
      (answer : tokenAt? (front ++ rest) front.size = some (none, (front ++ rest).size)) :
      Call front rest
  /-- A token is taken, with what is in front of it and what ends it. -/
  | token {taken left token : Text} (nonempty : taken ≠ [])
      (read : nextToken (taken ++ left) = some (token, left))
      (answer : tokenAt? (front ++ (taken ++ left)) front.size =
        some (some token, (front ++ taken).size)) :
      Call front (taken ++ left)

theorem call_of_scan {front before token behind : Text} (nonempty : before ++ token ≠ [])
    (read : nextToken (before ++ (token ++ behind)) = some (blankDash token, behind.drop 1))
    (seen : scan (Utf8.encode (front ++ (before ++ (token ++ behind)))) front.size =
      .token (front ++ before).size (front ++ before ++ token).size
        (front ++ before ++ token ++ behind.take 1).size) :
    Call front (before ++ (token ++ behind)) := by
  have slice : Text.slice? (front ++ (before ++ (token ++ behind))) (front ++ before).size
      (front ++ before ++ token).size = some token :=
    Text.slice?_eq_some_iff.mpr ⟨front ++ before, behind, by simp, rfl, rfl⟩
  have answer : tokenAt? (front ++ (before ++ (token ++ behind))) front.size =
      some (some (blankDash token), (front ++ (before ++ token ++ behind.take 1)).size) := by
    rw [tokenAt?, seen]
    dsimp only
    rw [slice]
    simp
  have cut : before ++ (token ++ behind) = before ++ token ++ behind.take 1 ++ behind.drop 1 := by
    rw [List.append_assoc _ (behind.take 1), List.take_append_drop, List.append_assoc]
  rw [cut] at read answer ⊢
  exact .token (List.append_ne_nil_of_left_ne_nil nonempty _) read answer

theorem closingByte_opening (e : Enclosure) :
    closingByte (UInt8.ofNat e.opening.toNat) =
      (UInt8.ofNat e.closing.toNat, Text.size [e.opening]) := by
  cases e <;> rfl

theorem Enclosure.ascii (e : Enclosure) : e.opening.toNat < 0x80 ∧ e.closing.toNat < 0x80 := by
  cases e <;> decide

/-- A token between an opening and a closing character, or the end. -/
theorem call_enclosed (front : Text) (n : Nat) (e : Enclosure) {token behind : Text}
    (inside : e.closing ∉ token) (ends : behind.head?.all (· = e.closing)) :
    Call front (spaces n ++ e.opening :: (token ++ behind)) := by
  have first : (Utf8.encode ([e.opening] ++ (token ++ behind))).head? =
      some (UInt8.ofNat e.opening.toNat) := (Utf8.head?_encode e.ascii.1).mpr rfl
  have space : UInt8.ofNat e.opening.toNat ≠ 0x20 := by cases e <;> decide
  have seen := scan_token front n first space (closingByte_opening e) e.ascii.2 inside ends
  have read := nextToken_enclosed n e inside ends
  rw [List.append_cons] at read ⊢
  exact call_of_scan (by simp) read seen

/-- A bare token. -/
theorem call_bare (front : Text) (n : Nat) {token behind : Text} (bare : Bare token)
    (ends : behind.head?.all (· = ' ')) : Call front (spaces n ++ (token ++ behind)) := by
  obtain ⟨c, word, rfl⟩ := List.exists_cons_of_ne_nil bare.nonempty
  obtain ⟨b, bs, hb⟩ := List.exists_cons_of_ne_nil (String.utf8EncodeChar_ne_nil (c := c))
  have first : (Utf8.encode ([] ++ (c :: word ++ behind))).head? = some b := by
    rw [List.nil_append, List.cons_append, Utf8.encode_cons, hb]
    rfl
  -- A byte below 0x80 is the first one only if its character is.
  have other {a : Char} (ascii : a.toNat < 0x80) (hc : (c :: word).head? ≠ some a) :
      b ≠ UInt8.ofNat a.toNat := by
    rintro rfl
    exact hc ((Utf8.head?_encode ascii (t := c :: word ++ behind)).mp first)
  have space : b ≠ 0x20 := other (a := ' ') (by decide) fun h =>
    bare.noSpace (List.mem_of_mem_head? h)
  have closing : closingByte b = (UInt8.ofNat ' '.toNat, Text.size []) := by
    have quote : b ≠ 0x22 := other (a := '"') (by decide) (bare.notOpening .quotes)
    have bracket : b ≠ 0x5B := other (a := '[') (by decide) (bare.notOpening .brackets)
    rw [closingByte, if_neg quote, if_neg bracket]
    rfl
  have seen := scan_token front n first space closing (by decide) bare.noSpace ends
  rw [List.append_nil] at seen
  exact call_of_scan (by simp) (nextToken_bare n bare ends) seen

/-- A call reads what follows its position, whatever the line. -/
theorem call (front rest : Text) : Call front rest := by
  obtain ⟨ts, row⟩ := exists_spells rest
  cases row with
  | blank n => exact .blank (nextToken_spaces n) (by rw [tokenAt?, scan_spaces])
  | bare n token apart => exact call_bare front n token apart
  | enclosed n e token => exact call_enclosed front n e token (by simp)
  | @unclosed n e t token =>
      have last : Call front (spaces n ++ e.opening :: (t ++ [])) :=
        call_enclosed front n e token rfl
      rwa [List.append_nil] at last

/-! ### Calls that follow one another -/

variable {line : Text}

/-- A call leads from a position to the next. -/
def Leads (line : Text) (i j : Nat) : Prop := ∃ answer, tokenAt? line i = some (answer, j)

/-- Calls that follow one another, the first of them at the beginning, lead to a position. -/
def Reached (line : Text) : Nat → Prop := Relation.ReflTransGen (Leads line) 0

/-- What a call at a position does. -/
inductive Advances (line : Text) (offset : Nat) : Prop where
  /-- It takes a token between two good positions and moves forward inside of the line. -/
  | token {start stop next : Nat} {token : Text}
      (seen : scan (Utf8.encode line) offset = .token start stop next)
      (good : line.Boundary start ∧ line.Boundary stop)
      (answer : tokenAt? line offset = some (some token, next))
      (forward : offset < next) (inside : next ≤ line.size)
  /-- It finds no token and moves to the end, where no call that follows finds one. -/
  | blank (answer : tokenAt? line offset = some (none, line.size))
      (further : ∀ i, Relation.ReflTransGen (Leads line) line.size i →
        tokenAt? line i = some (none, line.size))

theorem tokenAt?_end (line : Text) : tokenAt? line line.size = some (none, line.size) := by
  have seen := scan_spaces line 0
  rw [spaces, List.replicate_zero, List.append_nil] at seen
  rw [tokenAt?, seen]

theorem tokenAt?_further {i : Nat} (h : Relation.ReflTransGen (Leads line) line.size i) :
    tokenAt? line i = some (none, line.size) := by
  induction h with
  | refl => exact tokenAt?_end line
  | tail _ step ih =>
      obtain ⟨answer, h⟩ := step
      rw [ih] at h
      cases h
      exact tokenAt?_end line

/-- Where a token stands that a call takes. -/
theorem seen_of_tokenAt? {offset next : Nat} {t : Text}
    (h : tokenAt? line offset = some (some t, next)) :
    ∃ start stop, scan (Utf8.encode line) offset = .token start stop next ∧
      line.Boundary start ∧ line.Boundary stop := by
  rw [tokenAt?] at h
  split at h
  · cases h
  · cases h
  · next start stop _ seen =>
      obtain ⟨token, slice, h⟩ := Option.map_eq_some_iff.mp h
      cases h
      exact ⟨start, stop, seen, Text.boundary_of_slice? slice⟩

/-- A call at a good position. -/
theorem advances_of_boundary {offset : Nat} (good : line.Boundary offset) :
    Advances line offset := by
  obtain ⟨front, rest, rfl, rfl⟩ := good
  cases call front rest with
  | blank read answer => exact .blank answer fun _ => tokenAt?_further
  | token nonempty read answer =>
      obtain ⟨start, stop, seen, places⟩ := seen_of_tokenAt? answer
      have := Text.size_pos nonempty
      refine .token seen places answer ?_ ?_ <;>
        simp only [Text.size_append] <;> omega

/-- Calls lead from good positions to good ones. -/
theorem Leads.boundary {i j : Nat} (h : Leads line i j) (good : line.Boundary i) :
    line.Boundary j := by
  obtain ⟨answer', h⟩ := h
  obtain ⟨front, rest, rfl, rfl⟩ := good
  cases call front rest with
  | blank read answer =>
      rw [answer] at h
      cases h
      exact ⟨front ++ rest, [], (List.append_nil _).symm, rfl⟩
  | @token taken left _ nonempty read answer =>
      rw [answer] at h
      cases h
      exact ⟨front ++ taken, left, (List.append_assoc ..).symm, rfl⟩

theorem Reached.boundary {offset : Nat} (h : Reached line offset) : line.Boundary offset := by
  induction h with
  | refl => exact ⟨[], line, rfl, rfl⟩
  | tail _ step good => exact step.boundary good

/-! ### Events -/

/-- The event of a line from a position on, its fields put behind those of another event.  Nothing
comes of it if nothing comes of a call, and an error if a field is refused its name or its value. -/
def eventFrom? (line : Text) : List Text → Event → Nat → Option (Except EventError Event)
  | [], e, _                => some (.ok e)
  | name :: names, e, offset =>
    match tokenAt? line offset with
    | none                    => none
    | some (none, _)          => some (.ok e)
    | some (some token, next) =>
      match (Field.empty.setName name).bind (·.add (.string token)) with
      | .error c => some (.error c)
      | .ok f    => eventFrom? line names (e.addField f) next

/-- The event of a line, read at its positions. -/
def eventAt? (names : NameList) (line : Text) : Option (Except EventError Event) :=
  eventFrom? line names.names .empty 0

theorem eventFrom?_append : ∀ (names : List Text) (e : Event) (front rest : Text),
    eventFrom? (front ++ rest) names e front.size =
      some (.ok { e with fields := e.fields ++ fields names rest })
  | [], e, front, rest => by simp [eventFrom?, fields]
  | name :: names, e, front, rest => by
      cases call front rest with
      | blank read answer =>
          rw [eventFrom?, answer, fields, read]
          simp
      | @token taken left token _ read answer =>
          have made : (Field.empty.setName name).bind (·.add (.string token)) =
              .ok (.single name (.string token)) := rfl
          have further := eventFrom?_append names (e.addField (.single name (.string token)))
            (front ++ taken) left
          rw [List.append_assoc] at further
          rw [eventFrom?, answer]
          simp only [made, further, fields, read]
          simp [Event.addField]

theorem eventAt?_eq (names : NameList) (line : Text) :
    eventAt? names line = some (.ok (event names line)) :=
  eventFrom?_append names.names .empty [] line

/-! ### Runs -/

section

variable {σ : Type} (names : NameList) {sink : Sink σ}

/-- A run over lines whose events are read at their positions, behind some lines and some events:
what it ends with, and the state of the sink. -/
def runAt? (sink : Sink σ) (read delivered : Nat) (s : σ) :
    List Text → Option (Except EventError Nat × σ)
  | []            => some (.ok delivered, s)
  | line :: lines =>
    match eventAt? names line with
    | none            => none
    | some (.error c) => some (.error (.decode "apache" (read + 1) c), s)
    | some (.ok e)    =>
      match sink e s with
      | (.ok _, s)    => runAt? sink (read + 1) (delivered + 1) s lines
      | (.error c, s) => some (.error (.decode "apache" (read + 1) c), s)

/-- Such a run is the run of the decoder, whatever the sink. -/
theorem runAt?_eq : ∀ (lines : List Text) (p : Decoder.Progress) (s : σ), p.opened = .nothing →
    let out := (Decoder.apache names).runFrom sink p s (.ofLines lines)
    runAt? names sink p.tally.linesRead p.tally.eventsDelivered s lines =
      some (out.result, out.state)
  | [], p, s, nothing => by
      simp [runAt?, Source.ofLines, Decoder.runFrom, nothing, Internal.Open.event?,
        Decoder.deliver, Decoder.complete]
  | line :: lines, p, s, nothing => by
      rw [runAt?, eventAt?_eq, Source.ofLines_cons, Decoder.runFrom]
      simp only [Decoder.step, Decoder.deliver]
      rcases sink (event names line) s with ⟨_ | _, s'⟩
      · rfl
      · exact runAt?_eq lines (p.pulled (.apache names) line).delivered s' nothing

/-- Every line completes its event, and leaves nothing under way. -/
theorem completedFrom_apache (o : Internal.Open) (lines : List Text) :
    (Decoder.apache names).openedFrom o lines = .ok o ∧
      (Decoder.apache names).completedFrom o lines = lines.map (event names) := by
  induction lines with
  | nil => exact ⟨rfl, rfl⟩
  | cons line lines ih =>
      rw [Decoder.openedFrom_cons, Decoder.completedFrom]
      exact ⟨ih.1, congrArg (event names line :: ·) ih.2⟩

/-- A run into a sink that never fails delivers the event of each line. -/
theorem run_apache (ht : sink.Tireless) (s : σ) (lines : List Text) :
    ((Decoder.apache names).run sink s (.ofLines lines)).result = .ok lines.length ∧
      ((Decoder.apache names).run sink s (.ofLines lines)).state =
        sink.feed s (lines.map (event names)) := by
  obtain ⟨opened, completed⟩ := completedFrom_apache names .nothing lines
  have out := Decoder.run_opened ht s opened
  have events : (Decoder.apache names).completed lines = lines.map (event names) := completed
  rwa [events, Internal.Open.event?, Option.toList_none, List.append_nil, List.length_map] at out

/-- **Calls advance.**  Wherever calls lead from the beginning of a line, a call takes a token
between two good positions and moves forward inside of the line, or it moves to the end and finds
none, as does every call that follows.  So something comes of every event that is read at positions
and of every run, and a run into a sink that never fails delivers the event of each line. -/
theorem calls_advance (ht : sink.Tireless) (s : σ) (lines : List Text) :
    (∀ line offset, Reached line offset → Advances line offset) ∧
      (∀ line, eventAt? names line = some (.ok (event names line))) ∧
      runAt? names sink 0 0 s lines =
        some (.ok lines.length, sink.feed s (lines.map (event names))) ∧
      ((Decoder.apache names).run sink s (.ofLines lines)).result = .ok lines.length ∧
      ((Decoder.apache names).run sink s (.ofLines lines)).state =
        sink.feed s (lines.map (event names)) := by
  obtain ⟨result, state⟩ := run_apache names ht s lines
  have same : runAt? names sink 0 0 s lines =
      some (((Decoder.apache names).run sink s (.ofLines lines)).result,
        ((Decoder.apache names).run sink s (.ofLines lines)).state) :=
    runAt?_eq names lines .start s rfl
  rw [result, state] at same
  exact ⟨fun _ _ h => advances_of_boundary h.boundary, eventAt?_eq names, same, result, state⟩

end

/-- A token of three bytes, then a dash without its closing quote; a line of spaces. -/
theorem calls_advance_unclosed :
    let line : Text := "가 \"-"
    Sink.recorder.Tireless ∧ Reached line 6 ∧ Advances line 6 ∧
      ((Decoder.apache ⟨["a", "b"]⟩).run .recorder [] (.ofLines [line, "  "])).result = .ok 2 := by
  intro line
  have ht : Sink.recorder.Tireless := fun _ _ => rfl
  have first : Leads line 0 4 := ⟨some "가", by decide +kernel⟩
  have second : Leads line 4 6 := ⟨some "", by decide +kernel⟩
  have reached : Reached line 6 := (Relation.ReflTransGen.single first).tail second
  obtain ⟨advances, -, -, result, -⟩ := calls_advance ⟨["a", "b"]⟩ ht [] [line, "  "]
  exact ⟨ht, reached, advances line 6 reached, result⟩

end Apache

end EventLog
