import EventLog.TagStore
import Mathlib.Data.Multiset.Count

/-!
# What has happened to tag buckets

A store of tag buckets is what has happened to it, apart from the handles that are live: its ledger
says for which context each bucket was made, and which tag was added to which bucket.

* `Explains.of_bucket?`: what a bucket is can be read off the ledger and the live handles.
* `Explains.bucket?_eq_none_iff`: a bucket that has no live handle is gone, and no other one.
* `Explains.create`, `retain`, `release`, `addTag`: each operation of the store is an entry of the
  ledger, or a handle more or less.
-/

namespace EventLog

/-- What has happened to the buckets of a store. -/
structure Ledger where
  /-- The contexts that they were made for, in order. -/
  made : List ContextId
  /-- The tags that were added, in order. -/
  added : List (BucketId × Text)

namespace Ledger

/-- Nothing has happened. -/
def empty : Ledger := ⟨[], []⟩

/-- A bucket is made. -/
def make (l : Ledger) (owner : ContextId) : Ledger := { l with made := l.made ++ [owner] }

/-- A tag is added. -/
def add (l : Ledger) (id : BucketId) (tag : Text) : Ledger :=
  { l with added := l.added ++ [(id, tag)] }

/-- A bucket is made, or not, and then a tag is added, or not. -/
def enter (l : Ledger) : Option ContextId → Option (BucketId × Text) → Ledger
  | none, none                 => l
  | some owner, none           => l.make owner
  | none, some (id, tag)       => l.add id tag
  | some owner, some (id, tag) => (l.make owner).add id tag

theorem enter_eq (l : Ledger) (made : Option ContextId) (added : Option (BucketId × Text)) :
    l.enter made added = ⟨l.made ++ made.toList, l.added ++ added.toList⟩ := by
  cases made <;> cases added <;> simp [enter, make, add]

/-- The tags of a bucket, among those that were added. -/
def tagsIn (added : List (BucketId × Text)) (id : BucketId) : List Text :=
  (added.filter fun a => a.1 = id).map Prod.snd

/-- What is left of a bucket. -/
def bucket (l : Ledger) (live : Multiset BucketId) (id : BucketId) (owner : ContextId) :
    Option Bucket :=
  if id ∈ live then some ⟨owner, tagsIn l.added id, live.count id⟩ else none

/-- The store that is left. -/
def store (l : Ledger) (live : Multiset BucketId) : TagStore := l.made.mapIdx (l.bucket live)

/-- A store is what has happened to it, and each live handle is one of a bucket that was made. -/
structure Explains (l : Ledger) (live : Multiset BucketId) (s : TagStore) : Prop where
  eq_store : s = l.store live
  live : ∀ id ∈ live, id < l.made.length
  added : ∀ a ∈ l.added, a.1 < l.made.length

variable {l : Ledger} {live : Multiset BucketId} {s : TagStore} {id : BucketId} {b : Bucket}

theorem tagsIn_append (added further : List (BucketId × Text)) (id : BucketId) :
    tagsIn (added ++ further) id = tagsIn added id ++ tagsIn further id := by
  simp [tagsIn]

theorem tagsIn_concat_self (added : List (BucketId × Text)) (id : BucketId) (tag : Text) :
    tagsIn (added ++ [(id, tag)]) id = tagsIn added id ++ [tag] := by
  simp [tagsIn]

theorem tagsIn_concat_of_ne {id i : BucketId} (h : i ≠ id) (added : List (BucketId × Text))
    (tag : Text) : tagsIn (added ++ [(id, tag)]) i = tagsIn added i := by
  simp [tagsIn, h.symm]

theorem tagsIn_eq_nil {added : List (BucketId × Text)} (h : ∀ a ∈ added, a.1 ≠ id) :
    tagsIn added id = [] := by
  rw [tagsIn, List.filter_eq_nil_iff.mpr (by simpa using h), List.map_nil]

theorem explains_empty : empty.Explains 0 [] := ⟨rfl, by simp, by simp [empty]⟩

namespace Explains

/-! ### What is there -/

theorem bucket?_eq (h : l.Explains live s) (id : BucketId) :
    s.bucket? id = (l.made[id]?).bind (l.bucket live id) := by
  rw [h.eq_store, store, TagStore.bucket?, List.getElem?_mapIdx]
  cases l.made[id]? <;> rfl

/-- What a bucket is. -/
theorem of_bucket? (h : l.Explains live s) (hb : s.bucket? id = some b) :
    l.made[id]? = some b.owner ∧ b.tags = tagsIn l.added id ∧ b.handles = live.count id := by
  rw [h.bucket?_eq, Option.bind_eq_some_iff] at hb
  obtain ⟨owner, made, hb⟩ := hb
  rw [bucket] at hb
  split at hb
  · cases hb
    exact ⟨made, rfl, rfl⟩
  · cases hb

/-- A bucket is gone exactly if it has no live handle. -/
theorem bucket?_eq_none_iff (h : l.Explains live s) : s.bucket? id = none ↔ id ∉ live := by
  rw [h.bucket?_eq]
  constructor
  · intro none held
    rw [List.getElem?_eq_getElem (h.live id held), Option.bind_some, bucket, if_pos held] at none
    cases none
  · intro free
    cases l.made[id]? with
    | none => rfl
    | some owner => rw [Option.bind_some, bucket, if_neg free]

theorem exists_bucket? (h : l.Explains live s) (held : id ∈ live) :
    ∃ b, s.bucket? id = some b :=
  Option.ne_none_iff_exists'.mp fun none => h.bucket?_eq_none_iff.mp none held

theorem length_eq (h : l.Explains live s) : s.length = l.made.length := by
  rw [h.eq_store, store, List.length_mapIdx]

/-! ### What happens -/

/-- A change of one bucket. -/
theorem modify_store {l' : Ledger} {live' : Multiset BucketId} {f : Option Bucket → Option Bucket}
    (made : l'.made = l.made)
    (self : ∀ owner, l'.bucket live' id owner = f (l.bucket live id owner))
    (others : ∀ i ≠ id, l'.bucket live' i = l.bucket live i) :
    (l.store live).modify id f = l'.store live' := by
  refine List.ext_getElem? fun i => ?_
  rw [List.getElem?_modify, store, store, List.getElem?_mapIdx, List.getElem?_mapIdx, made]
  by_cases hi : id = i
  · subst hi
    cases l.made[id]? <;> simp [self]
  · cases l.made[i]? <;> simp [hi, others i (Ne.symm hi)]

theorem create (h : l.Explains live s) (owner : ContextId) :
    (l.make owner).Explains (s.length ::ₘ live) (s.create owner) := by
  -- The number was not used before: nobody holds it, and no tag has been added under it.
  have unheld : l.made.length ∉ live := fun held => Nat.lt_irrefl _ (h.live _ held)
  have untagged : tagsIn l.added l.made.length = [] :=
    tagsIn_eq_nil fun a ha => Nat.ne_of_lt (h.added a ha)
  have longer : (l.make owner).made.length = l.made.length + 1 := List.length_append
  rw [h.length_eq]
  refine ⟨?_, fun id hid => ?_, fun a ha => ?_⟩
  · rw [h.eq_store, TagStore.create, store, store, make, List.mapIdx_concat]
    congr 1
    · refine List.mapIdx_eq_mapIdx_iff.mpr fun i hi => ?_
      have ne : i ≠ l.made.length := Nat.ne_of_lt hi
      simp [bucket, ne]
    · simp [bucket, unheld, untagged]
  · rw [longer]
    obtain rfl | held := Multiset.mem_cons.mp hid
    · exact Nat.lt_succ_self _
    · exact Nat.lt_succ_of_lt (h.live id held)
  · rw [longer]
    exact Nat.lt_succ_of_lt (h.added a ha)

theorem retain (h : l.Explains live s) (held : id ∈ live) :
    l.Explains (id ::ₘ live) (s.retain id) := by
  refine ⟨?_, fun i hi => ?_, h.added⟩
  · rw [h.eq_store]
    refine modify_store rfl (fun owner => ?_) fun i hi => ?_
    · simp [bucket, held]
    · funext owner
      simp [bucket, hi]
  · obtain rfl | hi := Multiset.mem_cons.mp hi
    · exact h.live i held
    · exact h.live i hi

theorem release (h : l.Explains (id ::ₘ live) s) : l.Explains live (s.release id) := by
  refine ⟨?_, fun i hi => h.live i (Multiset.mem_cons_of_mem hi), h.added⟩
  rw [h.eq_store]
  refine modify_store rfl (fun owner => ?_) fun i hi => ?_
  · by_cases held : id ∈ live <;> simp [bucket, TagStore.Bucket.released, held]
  · funext owner
    simp [bucket, hi]

theorem addTag (h : l.Explains live s) (held : id ∈ live) (tag : Text) :
    (l.add id tag).Explains live (s.addTag id tag) := by
  refine ⟨?_, h.live, fun a ha => ?_⟩
  · rw [h.eq_store]
    refine modify_store rfl (fun owner => ?_) fun i hi => ?_
    · simp [bucket, held, add, tagsIn_concat_self]
    · funext owner
      simp [bucket, add, tagsIn_concat_of_ne hi]
  · obtain ha | ha := List.mem_append.mp ha
    · exact h.added a ha
    · rw [List.mem_singleton.mp ha]
      exact h.live id held

end Explains

end Ledger

end EventLog
