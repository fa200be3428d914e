import EventLog.EventPool
import EventLog.Proofs.Sharing.Ledger
import Mathlib.Algebra.Order.Group.Multiset

/-!
# Who holds tag buckets

A handle of a bucket is held under a name or by an event (`EventPool.holders`).  In the middle of an
operation there may be others that are on their way from one place to another: `EventPool.Kept` says
that the ledger and these two together explain the store.

* `Kept.create`, `retain`, `release`, `addTag`: what the operations of the store do to it.
* `Kept.putHandle`, `takeHandle`, `putEvent`, `dropEvent`, `assign`: what moving a handle to its
  place, or out of it, does.
-/

namespace EventLog

/-- The handle that a place holds. -/
def hand (o : Option BucketId) : Multiset BucketId := o.toList

@[simp] theorem hand_none : hand none = 0 := rfl

@[simp] theorem hand_some (id : BucketId) : hand (some id) = {id} := rfl

/-! ### Tables -/

namespace Table

variable {α : Type} {name : Text} {a : α} {t : Table α}

theorem mem_of_get? (h : get? name t = some a) : (name, a) ∈ t := by
  obtain ⟨⟨k, b⟩, found, rfl⟩ := Option.map_eq_some_iff.mp h
  have named := List.find?_some found
  obtain rfl : k = name := by simpa using named
  exact List.mem_of_find?_eq_some found

theorem mem_of_mem_put {x : Text × α} (h : x ∈ put name a t) : x ∈ t ∨ x = (name, a) := by
  fun_induction put name a t with
  | case1 => exact .inr (List.mem_singleton.mp h)
  | case2 b t => exact (List.mem_cons.mp h).symm.imp_left (List.mem_cons_of_mem _)
  | case3 k b t _ ih =>
      obtain rfl | h := List.mem_cons.mp h
      · exact .inl List.mem_cons_self
      · exact (ih h).imp_left (List.mem_cons_of_mem _)

theorem keys_put (name : Text) (a : α) (t : Table α) :
    (put name a t).map Prod.fst =
      if name ∈ t.map Prod.fst then t.map Prod.fst else t.map Prod.fst ++ [name] := by
  fun_induction put name a t with
  | case1 => rfl
  | case2 b t => simp
  | case3 k b t hk ih =>
      rw [List.map_cons, ih, List.map_cons]
      simp only [List.mem_cons, Ne.symm hk, false_or]
      split <;> rfl

theorem nodup_put (h : (t.map Prod.fst).Nodup) : ((put name a t).map Prod.fst).Nodup := by
  rw [keys_put]
  split
  · exact h
  · next new => exact List.concat_eq_append ▸ (List.nodup_concat _ _).mpr ⟨new, h⟩

theorem nodup_remove (h : (t.map Prod.fst).Nodup) : ((remove name t).map Prod.fst).Nodup :=
  h.sublist (List.filter_sublist.map _)

/-- The handles that the values of a table hold. -/
def held (f : α → Option BucketId) (t : Table α) : Multiset BucketId :=
  ((t.filterMap fun x => f x.2 : List BucketId) : Multiset BucketId)

variable {f : α → Option BucketId}

theorem held_cons (x : Text × α) : held f (x :: t) = hand (f x.2) + held f t := by
  rw [held, List.filterMap_cons]
  cases f x.2 <;> simp [held]

theorem mem_held {id : BucketId} : id ∈ held f t ↔ ∃ x ∈ t, f x.2 = some id := by
  simp [held]

/-- A value that is put in takes the place of the one of its name. -/
theorem held_put (name : Text) (a : α) (t : Table α) :
    hand ((get? name t).bind f) + held f (put name a t) = hand (f a) + held f t := by
  fun_induction put name a t with
  | case1 => simp [held_cons]
  | case2 b t => 
      rw [get?_cons, if_pos rfl, Option.bind_some, held_cons, held_cons]
      exact add_left_comm ..
  | case3 k b t hk ih =>
      rw [get?_cons, if_neg hk, held_cons, held_cons, add_left_comm, ih, add_left_comm]

theorem held_remove (name : Text) (h : (t.map Prod.fst).Nodup) :
    hand ((get? name t).bind f) + held f (remove name t) = held f t := by
  induction t with
  | nil => rfl
  | cons x t ih =>
      obtain ⟨k, b⟩ := x
      obtain ⟨new, h⟩ := List.nodup_cons.mp h
      rw [get?_cons, held_cons]
      by_cases hk : k = name
      · subst hk
        -- No other entry of this name is taken out.
        have rest : remove k t = t := List.filter_eq_self.mpr fun x hx => by
          simpa using fun same : x.1 = k => new (List.mem_map.mpr ⟨x, hx, same⟩)
        have first : remove k ((k, b) :: t) = remove k t := List.filter_cons_of_neg (by simp)
        rw [if_pos rfl, Option.bind_some, first, rest]
      · have first : remove name ((k, b) :: t) = (k, b) :: remove name t :=
          List.filter_cons_of_pos (by simpa using hk)
        rw [if_neg hk, first, held_cons, add_left_comm, ih h]

end Table

/-! ### Pools -/

namespace EventPool

/-- The handles of a pool: those with names, and those of events. -/
def holders (p : EventPool) : Multiset BucketId :=
  p.handles.held some + p.events.held PooledEvent.bucket

/-- How many handles of a bucket are live, held under a name or by an event. -/
def liveHandles (p : EventPool) (id : BucketId) : Nat :=
  p.handles.countP (fun x => x.2 = id) + p.events.countP (fun x => x.2.bucket = some id)

theorem count_holders (p : EventPool) (id : BucketId) :
    p.holders.count id = p.liveHandles id := by
  simp only [holders, Table.held, liveHandles, Multiset.count_add, Multiset.coe_count,
    List.count_filterMap, beq_eq_decide, Option.some.injEq]

/-- The store is what the ledger and the handles of the pool make of it, together with some that
have no place.  An event has a handle of a bucket of its own context only. -/
structure Kept (l : Ledger) (moving : Multiset BucketId) (p : EventPool) : Prop where
  explains : l.Explains (moving + p.holders) p.store
  owned : ∀ x ∈ p.events, ∀ id ∈ x.2.bucket, l.made[id]? = some x.2.owner
  handleNames : (p.handles.map Prod.fst).Nodup
  eventNames : (p.events.map Prod.fst).Nodup

namespace Kept

variable {l : Ledger} {moving moving' : Multiset BucketId} {p : EventPool} {name : Text}
  {id : BucketId} {e e' : PooledEvent}

/-! #### The store -/

theorem create (k : Kept l moving p) (owner : ContextId) :
    Kept (l.make owner) (p.store.length ::ₘ moving) { p with store := p.store.create owner } := by
  refine ⟨?_, fun x hx id hid => ?_, k.handleNames, k.eventNames⟩
  · rw [Multiset.cons_add]
    exact k.explains.create owner
  · have made := k.owned x hx id hid
    rw [Ledger.make, List.getElem?_append_left (List.getElem?_eq_some_iff.mp made).1]
    exact made

theorem retain (k : Kept l moving p) (held : id ∈ moving + p.holders) :
    Kept l (id ::ₘ moving) { p with store := p.store.retain id } :=
  ⟨Multiset.cons_add id moving _ ▸ k.explains.retain held, k.owned, k.handleNames, k.eventNames⟩

theorem release (k : Kept l (id ::ₘ moving) p) :
    Kept l moving { p with store := p.store.release id } := by
  have explains := k.explains
  rw [Multiset.cons_add] at explains
  exact ⟨explains.release, k.owned, k.handleNames, k.eventNames⟩

theorem releaseSome {o : Option BucketId} (k : Kept l (hand o + moving) p) :
    Kept l moving { p with store := p.store.releaseSome o } := by
  cases o with
  | none =>
      rw [hand_none, zero_add] at k
      exact k
  | some id => exact k.release

theorem addTag (k : Kept l moving p) (held : id ∈ moving + p.holders) (tag : Text) :
    Kept (l.add id tag) moving { p with store := p.store.addTag id tag } :=
  ⟨k.explains.addTag held tag, k.owned, k.handleNames, k.eventNames⟩

/-! #### Handles with names -/

theorem withHandles {t : Table BucketId} (k : Kept l moving p) (names : (t.map Prod.fst).Nodup)
    (same : moving' + t.held some = moving + p.handles.held some) :
    Kept l moving' { p with handles := t } := by
  refine ⟨?_, k.owned, names, k.eventNames⟩
  rw [holders, ← add_assoc, same, add_assoc]
  exact k.explains

/-- A handle gets a name; the one that had it is given back. -/
theorem putHandle (k : Kept l (id ::ₘ moving) p) (name : Text) :
    Kept l moving (p.putHandle name id) := by
  have put := Table.held_put (f := some) name id p.handles
  rw [Option.bind_fun_some, hand_some] at put
  refine (k.withHandles (Table.nodup_put k.handleNames) ?_).releaseSome
  rw [add_right_comm, put, add_right_comm, Multiset.singleton_add]

/-- A handle loses its name. -/
theorem takeHandle (k : Kept l moving p) (found : p.handles.get? name = some id) :
    Kept l (id ::ₘ moving) { p with handles := p.handles.remove name } := by
  have removed := Table.held_remove (f := some) name k.handleNames
  rw [found, Option.bind_some, hand_some] at removed
  refine k.withHandles (Table.nodup_remove k.handleNames) ?_
  rw [← removed, ← Multiset.singleton_add, add_left_comm, add_assoc]

/-! #### Handles of events -/

theorem withEvents {t : Table PooledEvent} (k : Kept l moving p) (names : (t.map Prod.fst).Nodup)
    (owned : ∀ x ∈ t, ∀ id ∈ x.2.bucket, l.made[id]? = some x.2.owner)
    (same : moving' + t.held PooledEvent.bucket = moving + p.events.held PooledEvent.bucket) :
    Kept l moving' { p with events := t } := by
  refine ⟨?_, owned, k.handleNames, names⟩
  rw [holders, add_left_comm, same, add_left_comm]
  exact k.explains

/-- An event gets a name; the one that had it gives its handle back. -/
theorem putEvent (k : Kept l (hand e.bucket + moving) p)
    (owned : ∀ id ∈ e.bucket, l.made[id]? = some e.owner) (name : Text) :
    Kept l moving (p.putEvent name e) := by
  have put := Table.held_put (f := PooledEvent.bucket) name e p.events
  refine (k.withEvents (Table.nodup_put k.eventNames) (fun x hx => ?_) ?_).releaseSome
  · obtain hx | rfl := Table.mem_of_mem_put hx
    · exact k.owned x hx
    · exact owned
  · rw [add_right_comm, put, add_right_comm]

/-- An event that is dropped gives its handle back. -/
theorem dropEvent (k : Kept l moving p) (found : p.events.get? name = some e) :
    Kept l moving
      { p with store := p.store.releaseSome e.bucket, events := p.events.remove name } := by
  have removed := Table.held_remove (f := PooledEvent.bucket) name k.eventNames
  rw [found, Option.bind_some] at removed
  refine (k.withEvents (Table.nodup_remove k.eventNames)
    (fun x hx => k.owned x (List.mem_of_mem_filter hx)) ?_).releaseSome
  rw [← removed, add_left_comm, add_assoc]

/-- What else there is of an event can change. -/
theorem changeEvent (k : Kept l moving p) (found : p.events.get? name = some e)
    (owner : e'.owner = e.owner) (bucket : e'.bucket = e.bucket) :
    Kept l moving { p with events := p.events.put name e' } := by
  have put := Table.held_put (f := PooledEvent.bucket) name e' p.events
  rw [found, Option.bind_some, bucket] at put
  refine k.withEvents (Table.nodup_put k.eventNames) (fun x hx => ?_)
    (congrArg _ (add_left_cancel put))
  obtain hx | rfl := Table.mem_of_mem_put hx
  · exact k.owned x hx
  · rw [owner, bucket]
    exact k.owned _ (Table.mem_of_get? found)

/-- A handle goes to an event, or is given back. -/
theorem assign (k : Kept l (id ::ₘ moving) p) (found : p.events.get? name = some e) :
    Kept l moving (p.assign name e id).2 := by
  rw [EventPool.assign]
  split
  · next same =>
      obtain ⟨b, hb, owner⟩ := Option.map_eq_some_iff.mp same
      -- The event is put in again, and gives back the handle that it had.
      have put : { p with
          store := p.store.releaseSome e.bucket
          events := p.events.put name { e with bucket := some id } } =
          p.putEvent name { e with bucket := some id } := by
        rw [EventPool.putEvent, found, Option.bind_some]
      rw [put]
      refine Kept.putEvent k (fun i hi => ?_) name
      cases hi
      rw [(k.explains.of_bucket? hb).1, owner]
  · exact k.release

end Kept

end EventPool

end EventLog
