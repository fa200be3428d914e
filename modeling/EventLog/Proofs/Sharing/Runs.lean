import EventLog.Proofs.Sharing.Holders

/-!
# Operations on shared tag buckets

Contexts, handles and events come and go in any order, and buckets are shared, replaced and refused
on the way.  Whatever was done, a pool is coherent with the tags that were added (`Coherent`).

* `Kept.perform`: each operation keeps the store what its ledger and the live handles make of it.
* `coherent_of_run`: so all operations together do, from the empty pool on.  A bucket of another
  context is refused in every pool they lead to, and costs the handle that was passed on, no other.
-/

namespace EventLog

namespace EventPool

/-- What can be done to a pool. -/
inductive Op where
  | newContext (name : Text) (c : Context)
  | changeFlags (name : Text) (f : Flags → Flags)
  | listen (name : Text) (listener : Option Text)
  | debug (name message : Text)
  | newBucket (name context : Text)
  | shareBucket (name source : Text)
  | shareEventBucket (name handle : Text)
  | dropHandle (name : Text)
  | addTag (name tag : Text)
  | walkHolding (name : Text) (n : Nat) (tag : Text)
  | newEvent (name context : Text)
  | dropEvent (name : Text)
  | assignShared (name handle : Text)
  | assignMoved (name handle : Text)
  | tagEvent (name tag : Text)
  | addField (name : Text) (f : Field)

/-- The pool behind an operation; one that names something that is not there may change nothing. -/
def perform (p : EventPool) : Op → EventPool
  | .newContext name c            => p.newContext name c
  | .changeFlags name f           => (p.changeFlags name f).getD p
  | .listen name listener         => (p.listen name listener).getD p
  | .debug name message           => (p.debug name message).getD p
  | .newBucket name context       => (p.newBucket name context).getD p
  | .shareBucket name source      => (p.shareBucket name source).getD p
  | .shareEventBucket name handle => ((p.shareEventBucket name handle).map Prod.snd).getD p
  | .dropHandle name              => (p.dropHandle name).getD p
  | .addTag name tag              => (p.addTag name tag).getD p
  | .walkHolding name n tag       => ((p.walkHolding name n tag).map Prod.snd).getD p
  | .newEvent name context        => (p.newEvent name context).getD p
  | .dropEvent name               => (p.dropEvent name).getD p
  | .assignShared name handle     => ((p.assignShared name handle).map Prod.snd).getD p
  | .assignMoved name handle      => (p.assignMoved name handle).2
  | .tagEvent name tag            => (p.tagEvent name tag).getD p
  | .addField name f              => (p.addField name f).getD p

/-- The context that an operation makes a bucket for, if it makes one. -/
def Op.made? (p : EventPool) : Op → Option ContextId
  | .newBucket _ context => p.contextId? context
  | .tagEvent name _     =>
    (p.events.get? name).bind fun e => if e.bucket = none then some e.owner else none
  | _                    => none

/-- The tag that an operation adds, and its bucket, if it adds one. -/
def Op.added? (p : EventPool) : Op → Option (BucketId × Text)
  | .addTag name tag        => (p.handles.get? name).map fun id => (id, tag)
  | .walkHolding name n tag =>
    (p.handles.get? name).bind fun id =>
      (p.store.walkHolding id n tag).result.toOption.map fun _ => (id, tag)
  | .tagEvent name tag      =>
    (p.events.get? name).map fun e => (e.bucket.getD p.store.length, tag)
  | _                       => none

/-- The pool behind operations. -/
def run (p : EventPool) (ops : List Op) : EventPool := ops.foldl perform p

/-- The contexts that operations make buckets for. -/
def makings (p : EventPool) : List Op → List ContextId
  | []        => []
  | op :: ops => (op.made? p).toList ++ makings (p.perform op) ops

/-- The tags that operations add, in the order they do. -/
def additions (p : EventPool) : List Op → List (BucketId × Text)
  | []        => []
  | op :: ops => (op.added? p).toList ++ additions (p.perform op) ops

/-! ### One operation -/

variable {l : Ledger} {p p' : EventPool} {name : Text}

theorem mem_of_handle {id : BucketId} (found : p.handles.get? name = some id)
    (moving : Multiset BucketId) : id ∈ moving + p.holders := by
  have held : id ∈ p.handles.held some := Table.mem_held.mpr ⟨_, Table.mem_of_get? found, rfl⟩
  exact Multiset.mem_add.mpr (.inr (Multiset.mem_add.mpr (.inl held)))

theorem mem_of_event {e : PooledEvent} {id : BucketId} (found : p.events.get? name = some e)
    (has : e.bucket = some id) (moving : Multiset BucketId) : id ∈ moving + p.holders := by
  have held : id ∈ p.events.held PooledEvent.bucket :=
    Table.mem_held.mpr ⟨_, Table.mem_of_get? found, has⟩
  exact Multiset.mem_add.mpr (.inr (Multiset.mem_add.mpr (.inr held)))

/-- What is not about buckets and events can change. -/
theorem Kept.of_same (k : Kept l 0 p) (store : p'.store = p.store)
    (handles : p'.handles = p.handles) (events : p'.events = p.events) : Kept l 0 p' := by
  obtain ⟨contexts, contextNames, s, hs, es, log⟩ := p'
  obtain rfl := store
  obtain rfl := handles
  obtain rfl := events
  exact ⟨k.explains, k.owned, k.handleNames, k.eventNames⟩

theorem Kept.changeContext (k : Kept l 0 p) (f : LiveContext → LiveContext) :
    Kept l 0 ((p.changeContext name f).getD p) := by
  rw [EventPool.changeContext]
  cases p.contextId? name with
  | none => exact k
  | some id => exact k.of_same rfl rfl rfl

theorem Kept.debug (k : Kept l 0 p) (message : Text) :
    Kept l 0 ((p.debug name message).getD p) := by
  rw [EventPool.debug]
  cases p.contextId? name with
  | none => exact k
  | some id =>
      simp only [Option.bind_eq_bind, Option.bind_some]
      split
      · exact k.of_same rfl rfl rfl
      · exact k

/-- A walk adds its tag, or changes nothing. -/
theorem store_walkHolding (s : TagStore) (id : BucketId) (n : Nat) (tag : Text) :
    (s.walkHolding id n tag).result = .ok () ∧ (s.walkHolding id n tag).store = s.addTag id tag ∨
      (∃ c, (s.walkHolding id n tag).result = .error c) ∧ (s.walkHolding id n tag).store = s := by
  simp only [TagStore.walkHolding, TagStore.addTagDuring]
  generalize (if n = 0 then none else (s.tags id)[n - 1]?) = held
  cases held with
  | none => exact .inl ⟨rfl, rfl⟩
  | some _ => exact .inr ⟨⟨_, rfl⟩, rfl⟩

/-- A bucket that is made for an event goes to it. -/
theorem Kept.tagNew (k : Kept l 0 p) {e : PooledEvent} (found : p.events.get? name = some e)
    (unset : e.bucket = none) (tag : Text) :
    Kept ((l.make e.owner).add p.store.length tag) 0
      { p with
        store := (p.store.create e.owner).addTag p.store.length tag
        events := p.events.put name { e with bucket := some p.store.length } } := by
  -- The event had no handle, so that none is given back when it is put in again.
  have put : { p with
      store := (p.store.create e.owner).addTag p.store.length tag
      events := p.events.put name { e with bucket := some p.store.length } } =
      { p with store := (p.store.create e.owner).addTag p.store.length tag }.putEvent name
        { e with bucket := some p.store.length } := by
    rw [EventPool.putEvent]
    simp [found, unset, TagStore.releaseSome]
  rw [put]
  have held : p.store.length ∈ p.store.length ::ₘ 0 + p.holders :=
    Multiset.mem_add.mpr (.inl (Multiset.mem_cons_self _ _))
  have tagged := (k.create e.owner).addTag held tag
  refine Kept.putEvent tagged (fun id hid => ?_) name
  cases hid
  have last : p.store.length = l.made.length := k.explains.length_eq
  simp [Ledger.add, Ledger.make, last]

/-- The ledger behind an operation. -/
def entered (p : EventPool) (l : Ledger) (op : Op) : Ledger := l.enter (op.made? p) (op.added? p)

/-- **One operation** keeps the store what the ledger and the live handles make of it. -/
theorem Kept.perform (k : Kept l 0 p) (op : Op) : Kept (p.entered l op) 0 (p.perform op) := by
  cases op with
  | newContext name c => exact k.of_same rfl rfl rfl
  | changeFlags name f | listen name f => exact k.changeContext _
  | debug name message => exact k.debug message
  | newBucket name context =>
      simp only [entered, Op.made?, Op.added?, EventPool.perform, EventPool.newBucket]
      cases p.contextId? context with
      | none => exact k
      | some owner => exact (k.create owner).putHandle name
  | shareBucket name source =>
      simp only [entered, Op.made?, Op.added?, EventPool.perform, EventPool.shareBucket]
      cases found : p.handles.get? source with
      | none => exact k
      | some id => exact (k.retain (mem_of_handle found 0)).putHandle name
  | shareEventBucket name handle =>
      simp only [entered, Op.made?, Op.added?, EventPool.perform, EventPool.shareEventBucket]
      cases found : p.events.get? name with
      | none => exact k
      | some e =>
          simp only [Option.map_some]
          cases has : e.bucket with
          | none => exact k
          | some id => exact (k.retain (mem_of_event found has 0)).putHandle handle
  | dropHandle name =>
      simp only [entered, Op.made?, Op.added?, EventPool.perform, EventPool.dropHandle]
      cases found : p.handles.get? name with
      | none => exact k
      | some id => exact (k.takeHandle found).release
  | addTag name tag =>
      simp only [entered, Op.made?, Op.added?, EventPool.perform, EventPool.addTag]
      cases found : p.handles.get? name with
      | none => exact k
      | some id => exact k.addTag (mem_of_handle found 0) tag
  | walkHolding name n tag =>
      simp only [entered, Op.made?, Op.added?, EventPool.perform, EventPool.walkHolding]
      cases found : p.handles.get? name with
      | none => exact k
      | some id =>
          obtain ⟨result, store⟩ | ⟨⟨c, result⟩, store⟩ := store_walkHolding p.store id n tag
          all_goals simp only [Option.bind_some, Option.map_some, result, store]
          · exact k.addTag (mem_of_handle found 0) tag
          · exact k
  | newEvent name context =>
      simp only [entered, Op.made?, Op.added?, EventPool.perform, EventPool.newEvent]
      cases p.contextId? context with
      | none => exact k
      | some owner => exact Kept.putEvent k (by simp) name
  | dropEvent name =>
      simp only [entered, Op.made?, Op.added?, EventPool.perform, EventPool.dropEvent]
      cases found : p.events.get? name with
      | none => exact k
      | some e => exact k.dropEvent found
  | assignShared name handle =>
      simp only [entered, Op.made?, Op.added?, EventPool.perform, EventPool.assignShared]
      cases found : p.events.get? name with
      | none => exact k
      | some e =>
          cases handed : p.handles.get? handle with
          | none => exact k
          | some id => exact (k.retain (mem_of_handle handed 0)).assign found
  | assignMoved name handle =>
      simp only [entered, Op.made?, Op.added?, EventPool.perform, EventPool.assignMoved,
        EventPool.takeHandle]
      cases handed : p.handles.get? handle with
      | none => exact k
      | some id =>
          simp only [Option.map_some]
          cases found : p.events.get? name with
          | none => exact (k.takeHandle handed).release
          | some e => exact (k.takeHandle handed).assign found
  | tagEvent name tag =>
      simp only [entered, Op.made?, Op.added?, EventPool.perform, EventPool.tagEvent]
      cases found : p.events.get? name with
      | none => exact k
      | some e =>
          simp only [Option.bind_some, Option.map_some]
          cases has : e.bucket with
          | none => exact k.tagNew found has tag
          | some id => exact k.addTag (mem_of_event found has 0) tag
  | addField name f =>
      simp only [entered, Op.made?, Op.added?, EventPool.perform, EventPool.addField]
      cases found : p.events.get? name with
      | none => exact k
      | some e => exact k.changeEvent found rfl rfl

/-! ### Several operations -/

/-- Operations keep the store what the ledger and the live handles make of it. -/
theorem Kept.run (k : Kept l 0 p) (ops : List Op) :
    Kept ⟨l.made ++ makings p ops, l.added ++ additions p ops⟩ 0 (p.run ops) := by
  induction ops generalizing l p with
  | nil => simpa [makings, additions, EventPool.run] using k
  | cons op ops ih =>
      have further := ih (k.perform op)
      rw [entered, Ledger.enter_eq] at further
      simpa [makings, additions, EventPool.run] using further

theorem kept_empty : Kept .empty 0 empty :=
  ⟨Ledger.explains_empty, nofun, .nil, .nil⟩

/-- What holds of the buckets of a pool, when these tags have been added in this order. -/
structure Coherent (added : List (BucketId × Text)) (p : EventPool) : Prop where
  /-- A bucket counts its live handles. -/
  counted : ∀ {id b}, p.store.bucket? id = some b → b.handles = p.liveHandles id
  /-- It is gone when there is none. -/
  gone_iff : ∀ id, p.store.bucket? id = none ↔ p.liveHandles id = 0
  /-- Its tags are those that were added to it, in the order they were. -/
  tags : ∀ {id b}, p.store.bucket? id = some b → b.tags = Ledger.tagsIn added id
  /-- Every handle leads to its bucket. -/
  handle : ∀ {name id}, p.handles.get? name = some id →
    ∃ b, p.store.bucket? id = some b ∧ p.bucket? name = some b
  /-- Every event has the tags of its bucket, and the bucket is one of its own context. -/
  event : ∀ {name e id}, p.events.get? name = some e → e.bucket = some id →
    ∃ b, p.store.bucket? id = some b ∧ b.owner = e.owner ∧
      p.event? name = some ⟨some b.tags, e.fields⟩ ∧ ∀ tag, (p.view e).hasTag tag = b.hasTag tag

theorem view_of_bucket {e : PooledEvent} {id : BucketId} {b : Bucket} (has : e.bucket = some id)
    (hb : p.store.bucket? id = some b) : p.view e = ⟨some b.tags, e.fields⟩ := by
  rw [view, eventBucket?, has, Option.bind_some, hb, Option.map_some]

theorem Kept.explained (k : Kept l 0 p) : l.Explains p.holders p.store := by
  simpa using k.explains

theorem Kept.coherent (k : Kept l 0 p) : Coherent l.added p := by
  have explains := k.explained
  refine ⟨fun hb => ?_, fun id => ?_, fun hb => ?_, fun found => ?_, fun found has => ?_⟩
  · rw [← count_holders, (explains.of_bucket? hb).2.2]
  · rw [explains.bucket?_eq_none_iff, ← count_holders, Multiset.count_eq_zero]
  · exact (explains.of_bucket? hb).2.1
  · obtain ⟨b, hb⟩ := k.explains.exists_bucket? (mem_of_handle found 0)
    exact ⟨b, hb, by rw [bucket?, found, Option.bind_some, hb]⟩
  · obtain ⟨b, hb⟩ := k.explains.exists_bucket? (mem_of_event found has 0)
    have owner := (explains.of_bucket? hb).1.symm.trans
      (k.owned _ (Table.mem_of_get? found) _ has)
    refine ⟨b, hb, Option.some.inj owner, ?_, fun tag => ?_⟩
    · rw [event?, found, Option.map_some, view_of_bucket has hb]
    · rw [view_of_bucket has hb]
      rfl

/-- What is refused is given back. -/
theorem assign_of_foreign (name : Text) {e : PooledEvent} {id : BucketId} {b : Bucket}
    (hb : p.store.bucket? id = some b) (foreign : b.owner ≠ e.owner) :
    p.assign name e id =
      (.error (.invalidArgument .foreignBucket), { p with store := p.store.release id }) := by
  rw [assign, hb, Option.map_some, if_neg fun same => foreign (Option.some.inj same)]

/-- A bucket of another context is refused: of all handles, only the one that was passed on is given
back. -/
theorem Kept.refused (k : Kept l 0 p) {handle : Text} {e : PooledEvent} {id : BucketId}
    {b : Bucket} (found : p.events.get? name = some e) (handed : p.handles.get? handle = some id)
    (hb : p.store.bucket? id = some b) (foreign : b.owner ≠ e.owner) :
    p.assignShared name handle = some (.error (.invalidArgument .foreignBucket), p) ∧
      ∃ p', p.dropHandle handle = some p' ∧ p'.events = p.events ∧
        p.assignMoved name handle = (some (.error (.invalidArgument .foreignBucket)), p') := by
  refine ⟨?_, { p with store := p.store.release id, handles := p.handles.remove handle }, ?_, rfl,
    ?_⟩
  · -- With one handle more the bucket has the same owner, and giving it back restores the store.
    have retained := k.explains.retain (mem_of_handle handed 0)
    obtain ⟨b', hb'⟩ := retained.exists_bucket? (Multiset.mem_cons_self _ _)
    have same := (retained.of_bucket? hb').1.symm.trans (k.explains.of_bucket? hb).1
    have restored : (p.store.retain id).release id = p.store :=
      retained.release.eq_store.trans k.explains.eq_store.symm
    have refused := assign_of_foreign (p := { p with store := p.store.retain id }) name hb'
      ((Option.some.inj same).trans_ne foreign)
    simp only [assignShared, found, handed, Option.bind_eq_bind, Option.bind_some]
    rw [refused, restored]
    rfl
  · rw [dropHandle, handed, Option.map_some]
  · have refused := assign_of_foreign (p := { p with handles := p.handles.remove handle }) name hb
      foreign
    rw [assignMoved, EventPool.takeHandle, handed, Option.map_some]
    simp only [found]
    rw [refused]
    rfl

/-- **Shared buckets.**  Behind any operations, each bucket counts its live handles, and has the
tags that were added through any of them, whoever asks; an event has a bucket of its own context
only, and one of another context is refused. -/
theorem coherent_of_run (ops : List Op) :
    let p := empty.run ops
    Coherent (additions empty ops) p ∧
      ∀ {name handle : Text} {e : PooledEvent} {id : BucketId} {b : Bucket},
        p.events.get? name = some e → p.handles.get? handle = some id →
        p.store.bucket? id = some b → b.owner ≠ e.owner →
        p.assignShared name handle = some (.error (.invalidArgument .foreignBucket), p) ∧
          ∃ p', p.dropHandle handle = some p' ∧ p'.events = p.events ∧
            p.assignMoved name handle = (some (.error (.invalidArgument .foreignBucket)), p') := by
  intro p
  have kept := kept_empty.run ops
  exact ⟨kept.coherent, kept.refused⟩

/-- A bucket of the context `d` has two handles and is not given to an event of the context `c`. -/
theorem coherent_of_run_foreign :
    let ops : List Op := [.newContext "c" .standard, .newContext "d" .standard,
      .newBucket "t" "d", .shareBucket "u" "t", .newEvent "e" "c", .tagEvent "e" "x", .addTag "u" "y"]
    let p := empty.run ops
    let refusal : EventError := .invalidArgument .foreignBucket
    Coherent [(1, "x"), (0, "y")] p ∧ p.bucket? "t" = some ⟨1, ["y"], 2⟩ ∧
      p.event? "e" = some ⟨some ["x"], []⟩ ∧ p.assignShared "e" "t" = some (.error refusal, p) ∧
      ∃ p', p.assignMoved "e" "t" = (some (.error refusal), p') ∧ p'.events = p.events ∧
        p'.bucket? "t" = none ∧ p'.bucket? "u" = some ⟨1, ["y"], 1⟩ := by
  intro ops p refusal
  have found : p.events.get? "e" = some ⟨0, some 1, []⟩ := by decide
  have handed : p.handles.get? "t" = some 0 := by decide
  have bucket : p.store.bucket? 0 = some ⟨1, ["y"], 2⟩ := by decide
  obtain ⟨coherent, refused⟩ := coherent_of_run ops
  obtain ⟨shared, p', dropped, events, moved⟩ := refused found handed bucket (by decide)
  have behind : (p.dropHandle "t").map (fun p => (p.bucket? "t", p.bucket? "u")) =
      some (none, some ⟨1, ["y"], 1⟩) := by decide
  rw [dropped, Option.map_some, Option.some.injEq, Prod.mk.injEq] at behind
  exact ⟨coherent, by decide, by decide, shared, p', moved, events, behind⟩

/-- An event that is given its own bucket again has one handle of it, as before. -/
example :
    let p := empty.run [.newContext "c" .standard, .newBucket "t" "c", .newEvent "e" "c",
      .assignShared "e" "t", .tagEvent "e" "x", .assignShared "e" "t"]
    p.store.bucket? 0 = some ⟨0, ["x".toList], 2⟩ := by
  decide

end EventPool

end EventLog
