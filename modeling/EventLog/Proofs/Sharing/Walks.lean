import EventLog.Proofs.Sharing.Runs
import EventLog.Workspace

/-!
# Walks through growing buckets

Cursors walk through the tags of buckets while tags are added, and handles come and go, in any order
(`Workspace.Move`).  A bucket only ever gets tags behind those it has, so that what a cursor has
passed since it last was unset stays a beginning of the tags (`Visiting`), whoever adds more of
them.

* `Visiting.perform`, `Visiting.run`: one move keeps this so, and so do all of them together.
* `answers_filter`: moves of other cursors make no difference to a cursor.
* `walk_visits_tags`: a walk that comes to the end has seen all tags that there are then, each once
  and in order; the next one begins anew.
-/

namespace EventLog

theorem Cursor.next_eq (c : Cursor) (tags : List Text) :
    c.next tags = (tags[c.getD 0]?, (tags[c.getD 0]?).map fun _ => c.getD 0 + 1) := by
  rw [Cursor.next]
  cases tags[c.getD 0]? <;> rfl

namespace Workspace

/-! ### Moves -/

/-- Something is done to the pool, or a cursor is moved on in the bucket of a handle. -/
inductive Move where
  | pool (op : EventPool.Op)
  | next (handle cursor : Text)

/-- The workspace behind a move; without a bucket a cursor stays where it is. -/
def perform (w : Workspace) : Move → Workspace
  | .pool op            => { w with pool := w.pool.perform op }
  | .next handle cursor => ((w.nextTag handle cursor).map Prod.snd).getD w

/-- The workspace behind moves. -/
def run (w : Workspace) (moves : List Move) : Workspace := moves.foldl perform w

/-- What a cursor is answered by a move, if it is moved on at all. -/
def answer? (cursor : Text) (w : Workspace) : Move → Option (Option Text)
  | .pool _        => none
  | .next handle c => if c = cursor then (w.nextTag handle c).map Prod.fst else none

/-- What a cursor is answered by moves. -/
def answers (cursor : Text) (w : Workspace) : List Move → List (Option Text)
  | []      => []
  | m :: ms => (w.answer? cursor m).toList ++ answers cursor (w.perform m) ms

/-- Whether a move is one of the pool or of a cursor. -/
def Move.concerns (cursor : Text) : Move → Bool
  | .pool _   => true
  | .next _ c => c = cursor

/-- If a move is one of a cursor, it is one in this bucket or in none. -/
def Move.StaysIn (id : BucketId) (cursor : Text) (w : Workspace) : Move → Prop
  | .pool _        => True
  | .next handle c => c = cursor → (w.pool.handles.get? handle).all (· = id)

instance (id : BucketId) (cursor : Text) (w : Workspace) (m : Move) :
    Decidable (m.StaysIn id cursor w) := by
  cases m <;> unfold Move.StaysIn <;> infer_instance

/-- Moves take a cursor to no other bucket than this one. -/
def Stays (id : BucketId) (cursor : Text) (w : Workspace) : List Move → Prop
  | []      => True
  | m :: ms => m.StaysIn id cursor w ∧ Stays id cursor (w.perform m) ms

instance decidableStays (id : BucketId) (cursor : Text) :
    ∀ (w : Workspace) (moves : List Move), Decidable (Stays id cursor w moves)
  | _, []      => isTrue trivial
  | w, m :: ms => @instDecidableAnd _ _ _ (decidableStays id cursor (w.perform m) ms)

/-! ### One call -/

variable {w w' : Workspace} {handle cursor : Text}

/-- A cursor at another place, or unset. -/
def withPlace (w : Workspace) (cursor : Text) : Cursor → Workspace
  | some place => { w with cursors := w.cursors.put cursor place }
  | none       => { w with cursors := w.cursors.remove cursor }

theorem pool_withPlace (c : Cursor) : (w.withPlace cursor c).pool = w.pool := by
  cases c <;> rfl

theorem get?_withPlace_self (c : Cursor) : (w.withPlace cursor c).cursors.get? cursor = c := by
  cases c with
  | none => exact Table.get?_remove_self cursor _
  | some place => exact Table.get?_put_self cursor place _

theorem get?_withPlace_of_ne {other : Text} (h : other ≠ cursor) (c : Cursor) :
    (w.withPlace cursor c).cursors.get? other = w.cursors.get? other := by
  cases c with
  | none => exact Table.get?_remove_of_ne h _
  | some place => exact Table.get?_put_of_ne h place _

theorem nextTag_eq (w : Workspace) (handle cursor : Text) :
    w.nextTag handle cursor = (w.pool.bucket? handle).map fun b =>
      ((Cursor.next (w.cursors.get? cursor) b.tags).1,
        w.withPlace cursor (Cursor.next (w.cursors.get? cursor) b.tags).2) := by
  rw [nextTag]
  congr 1
  funext b
  rw [Cursor.next_eq]
  cases b.tags[(w.cursors.get? cursor).getD 0]? <;> rfl

/-! ### What a cursor sees -/

/-- Two workspaces look alike to a cursor. -/
structure Alike (cursor : Text) (w w' : Workspace) : Prop where
  pool : w.pool = w'.pool
  place : w.cursors.get? cursor = w'.cursors.get? cursor

theorem Alike.symm (h : Alike cursor w w') : Alike cursor w' w := ⟨h.pool.symm, h.place.symm⟩

theorem Alike.trans {w'' : Workspace} (h : Alike cursor w w') (h' : Alike cursor w' w'') :
    Alike cursor w w'' :=
  ⟨h.pool.trans h'.pool, h.place.trans h'.place⟩

/-- A cursor does not see that another one is moved on. -/
theorem alike_perform_other {c : Text} (h : c ≠ cursor) (w : Workspace) (handle : Text) :
    Alike cursor (w.perform (.next handle c)) w := by
  rw [perform, nextTag_eq]
  cases w.pool.bucket? handle with
  | none => exact ⟨rfl, rfl⟩
  | some b => exact ⟨pool_withPlace _, get?_withPlace_of_ne h.symm _⟩

theorem Alike.answer? (h : Alike cursor w w') (m : Move) :
    w.answer? cursor m = w'.answer? cursor m := by
  cases m with
  | pool op => rfl
  | next handle c =>
      rw [Workspace.answer?, Workspace.answer?]
      split
      · next hc =>
          subst hc
          rw [nextTag_eq, nextTag_eq, h.pool, h.place, Option.map_map, Option.map_map]
          rfl
      · rfl

theorem Alike.perform (h : Alike cursor w w') (m : Move) :
    Alike cursor (w.perform m) (w'.perform m) := by
  cases m with
  | pool op => exact ⟨congrArg (·.perform op) h.pool, h.place⟩
  | next handle c =>
      by_cases hc : c = cursor
      · subst hc
        rw [Workspace.perform, Workspace.perform, nextTag_eq, nextTag_eq, h.pool, h.place]
        cases w'.pool.bucket? handle with
        | none => exact h
        | some b =>
            exact ⟨(pool_withPlace _).trans (h.pool.trans (pool_withPlace _).symm),
              (get?_withPlace_self _).trans (get?_withPlace_self _).symm⟩
      · exact (alike_perform_other hc w handle).trans <| h.trans <|
          (alike_perform_other hc w' handle).symm

/-- **Moves of other cursors make no difference** to a cursor. -/
theorem answers_filter (h : Alike cursor w w') (moves : List Move) :
    w.answers cursor (moves.filter (Move.concerns cursor)) = w'.answers cursor moves := by
  induction moves generalizing w w' with
  | nil => rfl
  | cons m moves ih =>
      rw [answers]
      cases hm : m.concerns cursor with
      | true => rw [List.filter_cons_of_pos hm, answers, h.answer?, ih (h.perform m)]
      | false =>
          -- What is left out is a move of another cursor.
          match m with
          | .next handle c =>
              have hc : c ≠ cursor := by simpa [Move.concerns] using hm
              have further := h.trans (alike_perform_other hc w' handle).symm
              rw [List.filter_cons_of_neg (by simp [hm]), ih further, answer?, if_neg hc]
              rfl

/-! ### What a cursor has passed -/

/-- The tags that a cursor has passed since it was unset, behind one more answer. -/
def passed (seen : List Text) : Option Text → List Text
  | some tag => seen ++ [tag]
  | none     => []

/-- Some tags are the last answers, back to one without a tag or to the first of all. -/
def LastSeen (seen : List Text) (answers : List (Option Text)) : Prop :=
  ∃ earlier, answers = earlier ++ seen.map some ∧ earlier.getLast?.all Option.isNone

theorem foldl_passed_map_some (seen tags : List Text) :
    (tags.map some).foldl passed seen = seen ++ tags := by
  induction tags generalizing seen with
  | nil => simp
  | cons tag tags ih => simp [passed, ih]

theorem LastSeen.foldl_passed {seen : List Text} {answers : List (Option Text)}
    (h : LastSeen seen answers) : answers.foldl passed [] = seen := by
  obtain ⟨earlier, rfl, anew⟩ := h
  rcases earlier.eq_nil_or_concat with rfl | ⟨earlier, last, rfl⟩
  · exact foldl_passed_map_some [] seen
  · rw [List.concat_eq_append] at anew ⊢
    obtain rfl : last = none := by simpa using anew
    rw [List.foldl_append, foldl_passed_map_some, List.foldl_append]
    rfl

/-- A cursor has passed some tags of a bucket since it last was unset: they are the first ones of
those that were added. -/
structure Visiting (l : Ledger) (id : BucketId) (cursor : Text) (seen : List Text) (w : Workspace) :
    Prop where
  kept : EventPool.Kept l 0 w.pool
  place : (w.cursors.get? cursor).getD 0 = seen.length
  seen : seen <+: Ledger.tagsIn l.added id

namespace Visiting

variable {l : Ledger} {id : BucketId} {seen : List Text}

theorem of_alike (v : Visiting l id cursor seen w) (h : Alike cursor w w') :
    Visiting l id cursor seen w' :=
  ⟨h.pool ▸ v.kept, h.place ▸ v.place, v.seen⟩

/-- The cursor itself is answered the first tag that it has not passed. -/
theorem next (v : Visiting l id cursor seen w) (found : w.pool.handles.get? handle = some id) :
    ∃ b rest w', w.pool.bucket? handle = some b ∧ b.tags = seen ++ rest ∧
      w.nextTag handle cursor = some (rest.head?, w') ∧
      Visiting l id cursor (passed seen rest.head?) w' ∧
      (rest.head? = none → w'.cursors.get? cursor = none) := by
  -- A bucket that a handle holds is there, with all tags that were ever added to it.
  have held : id ∈ w.pool.holders := by simpa using EventPool.mem_of_handle found 0
  obtain ⟨b, hb⟩ := v.kept.explained.exists_bucket? held
  have bucket : w.pool.bucket? handle = some b := by
    rw [EventPool.bucket?, found, Option.bind_some, hb]
  have added : b.tags = Ledger.tagsIn l.added id := (v.kept.explained.of_bucket? hb).2.1
  obtain ⟨rest, hrest⟩ := v.seen
  have tags : b.tags = seen ++ rest := added.trans hrest.symm
  -- The place of the cursor is the number of tags that it has passed.
  have step : Cursor.next (w.cursors.get? cursor) b.tags =
      (rest.head?, rest.head?.map fun _ => seen.length + 1) := by
    rw [Cursor.next_eq, v.place, tags, List.getElem?_append_right (Nat.le_refl _), Nat.sub_self,
      List.head?_eq_getElem?]
  refine ⟨b, rest, _, bucket, tags, by rw [nextTag_eq, bucket, Option.map_some, step], ?_, ?_⟩
  · refine ⟨(pool_withPlace _).symm ▸ v.kept, ?_, ?_⟩
    · rw [get?_withPlace_self]
      cases rest <;> simp [passed]
    · rw [← hrest]
      cases rest <;> simp [passed]
  · intro ends
    rw [get?_withPlace_self, ends, Option.map_none]

/-- **One move** keeps what a cursor has passed a beginning of the tags of its bucket. -/
theorem perform (v : Visiting l id cursor seen w) {m : Move} (stays : m.StaysIn id cursor w) :
    ∃ l', Visiting l' id cursor ((w.answer? cursor m).toList.foldl passed seen) (w.perform m) := by
  cases m with
  | pool op =>
      -- Whatever is done to the pool, tags are only added behind those that are there.
      refine ⟨w.pool.entered l op, v.kept.perform op, v.place, v.seen.trans ?_⟩
      rw [EventPool.entered, Ledger.enter_eq, Ledger.tagsIn_append]
      exact List.prefix_append _ _
  | next handle c =>
      rw [answer?]
      by_cases hc : c = cursor
      · subst hc
        rw [if_pos rfl, Workspace.perform]
        cases found : w.pool.handles.get? handle with
        | none =>
            rw [nextTag_eq, EventPool.bucket?, found]
            exact ⟨l, v⟩
        | some other =>
            obtain rfl : other = id := by simpa [Move.StaysIn, found] using stays
            obtain ⟨b, rest, w', -, -, answer, further, -⟩ := v.next found
            rw [answer]
            exact ⟨l, further⟩
      · rw [if_neg hc]
        exact ⟨l, v.of_alike (alike_perform_other hc w handle).symm⟩

/-- All moves together do. -/
theorem run (v : Visiting l id cursor seen w) {moves : List Move}
    (stays : Stays id cursor w moves) :
    ∃ l', Visiting l' id cursor ((w.answers cursor moves).foldl passed seen) (w.run moves) := by
  induction moves generalizing l seen w with
  | nil => exact ⟨l, v⟩
  | cons m moves ih =>
      obtain ⟨l', further⟩ := v.perform stays.1
      obtain ⟨l'', behind⟩ := ih further stays.2
      rw [answers, List.foldl_append]
      exact ⟨l'', behind⟩

end Visiting

/-! ### Main statement -/

/-- **A walk visits every tag once.**  Of a bucket that a cursor stays in, whatever else is done, it
has passed the first tags since it was last unset, each once and in order; the next call answers the
first one that is left.  If none is left, it has passed all tags that there are by then, and is
unset again.  What other cursors do makes no difference to it. -/
theorem walk_visits_tags {w : Workspace} {ops : List EventPool.Op} {cursor : Text}
    (reached : w.pool = EventPool.empty.run ops) (unset : w.cursors.get? cursor = none) :
    (∀ (id : BucketId) (moves : List Move) (seen : List Text) (handle : Text),
      Stays id cursor w moves → LastSeen seen (w.answers cursor moves) →
      (w.run moves).pool.handles.get? handle = some id →
      ∃ b rest w', (w.run moves).pool.bucket? handle = some b ∧ b.tags = seen ++ rest ∧
        (w.run moves).nextTag handle cursor = some (rest.head?, w') ∧
        (rest.head? = none → b.tags = seen ∧ w'.cursors.get? cursor = none)) ∧
    ∀ moves, w.answers cursor (moves.filter (Move.concerns cursor)) = w.answers cursor moves := by
  refine ⟨fun id moves seen handle stays answered found => ?_, answers_filter ⟨rfl, rfl⟩⟩
  have start : Visiting _ id cursor [] w :=
    ⟨reached ▸ EventPool.kept_empty.run ops, by rw [unset]; rfl, List.nil_prefix⟩
  obtain ⟨l', v⟩ := start.run stays
  rw [answered.foldl_passed] at v
  obtain ⟨b, rest, w', bucket, tags, answer, -, ends⟩ := v.next found
  refine ⟨b, rest, w', bucket, tags, answer, fun none => ⟨?_, ends none⟩⟩
  rw [tags, List.head?_eq_none_iff.mp none, List.append_nil]

/-- A tag is added through another handle in the middle of a walk, and another cursor walks as well;
a second pass has begun when a third tag is added through an event. -/
theorem walk_visits_tags_growing :
    let w : Workspace :=
      { Workspace.empty with
        pool := EventPool.empty.run [.newContext "c" .standard, .newBucket "t" "c",
          .shareBucket "u" "t", .newEvent "e" "c", .assignShared "e" "u", .addTag "t" "x"] }
    let moves : List Move := [.next "t" "k", .next "u" "j", .pool (.addTag "u" "y"), .next "u" "k",
      .next "t" "j", .next "t" "k", .next "u" "k", .pool (.tagEvent "e" "z")]
    let x := "x".toList
    let y := "y".toList
    w.answers "k" moves = [some x, some y, none, some x] ∧
      ∃ b rest w', (w.run moves).pool.bucket? "t" = some b ∧ b.tags = [x] ++ rest ∧
        (w.run moves).nextTag "t" "k" = some (rest.head?, w') ∧
        (rest.head? = none → b.tags = [x] ∧ w'.cursors.get? "k" = none) := by
  intro w moves x y
  have answered : w.answers "k" moves = [some x, some y, none, some x] := by decide
  have stays : Stays 0 "k" w moves := by decide
  have last : LastSeen [x] (w.answers "k" moves) := ⟨[some x, some y, none], answered, rfl⟩
  exact ⟨answered, (walk_visits_tags rfl rfl).1 0 moves [x] "t" stays last (by decide)⟩

end Workspace

end EventLog
