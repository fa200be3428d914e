import EventLog.Context
import EventLog.Event
import EventLog.Table
import EventLog.TagStore

/-!
# Events that share tags

The pool holds contexts, handles of tag buckets and events, each under a name.  An event has a
handle of its own on its bucket, if it has one; events of one context can share a bucket, and a
bucket of another context is refused.  Putting something under a name that is taken drops what was
there, once the new thing is made.  A context goes on for as long as anything made in it; its
settings can change at any time, and all that was made in it sees the change.

An operation that names something that is not there gives nothing and changes nothing, unless it
says otherwise.
-/

namespace EventLog

/-- A context in use, and what it puts in front of debug messages if it passes them on. -/
structure LiveContext where
  settings : Context
  listener : Option Text
deriving Repr, DecidableEq

/-- An event with its handle on a bucket. -/
structure PooledEvent where
  owner : ContextId
  bucket : Option BucketId
  fields : List Field
deriving Repr, DecidableEq

/-- Contexts, tag buckets and events. -/
structure EventPool where
  /-- All contexts by number. -/
  contexts : List LiveContext
  contextNames : Table ContextId
  store : TagStore
  /-- The handles that are not an event's. -/
  handles : Table BucketId
  events : Table PooledEvent
  /-- The debug messages that were passed on. -/
  log : List Text

namespace EventPool

/-- Nothing has been made. -/
def empty : EventPool := ⟨[], [], [], [], [], []⟩

/-! ### Contexts -/

/-- Makes a context. -/
def newContext (p : EventPool) (name : Text) (c : Context) : EventPool :=
  { p with
    contexts := p.contexts ++ [⟨c, none⟩]
    contextNames := p.contextNames.put name p.contexts.length }

/-- The context of a name. -/
def contextId? (p : EventPool) (name : Text) : Option ContextId := p.contextNames.get? name

/-- The settings of a context. -/
def settings (p : EventPool) (id : ContextId) : Context :=
  ((p.contexts[id]?).map LiveContext.settings).getD .standard

/-- Changes a context. -/
def changeContext (p : EventPool) (name : Text) (f : LiveContext → LiveContext) :
    Option EventPool :=
  (p.contextId? name).map fun id => { p with contexts := p.contexts.modify id f }

/-- Changes the flags of a context. -/
def changeFlags (p : EventPool) (name : Text) (f : Flags → Flags) : Option EventPool :=
  p.changeContext name fun c => { c with settings := { c.settings with flags := f c.settings.flags } }

/-- Has a context pass on debug messages with something in front, or keep them to itself. -/
def listen (p : EventPool) (name : Text) (listener : Option Text) : Option EventPool :=
  p.changeContext name fun c => { c with listener := listener }

/-- Gives a context a debug message. -/
def debug (p : EventPool) (name message : Text) : Option EventPool := do
  let id ← p.contextId? name
  match (p.contexts[id]?).bind LiveContext.listener with
  | some lead => return { p with log := p.log ++ [lead ++ message] }
  | none      => return p

/-! ### Handles -/

/-- Puts a handle under a name; the one that was there is given back. -/
def putHandle (p : EventPool) (name : Text) (id : BucketId) : EventPool :=
  { p with
    store := p.store.releaseSome (p.handles.get? name)
    handles := p.handles.put name id }

/-- Makes a bucket. -/
def newBucket (p : EventPool) (name context : Text) : Option EventPool :=
  (p.contextId? context).map fun owner =>
    { p with store := p.store.create owner }.putHandle name p.store.length

/-- Makes another handle of a bucket. -/
def shareBucket (p : EventPool) (name source : Text) : Option EventPool :=
  (p.handles.get? source).map fun id => { p with store := p.store.retain id }.putHandle name id

/-- Gives a handle back. -/
def dropHandle (p : EventPool) (name : Text) : Option EventPool :=
  (p.handles.get? name).map fun id =>
    { p with store := p.store.release id, handles := p.handles.remove name }

/-- Adds a tag through a handle. -/
def addTag (p : EventPool) (name tag : Text) : Option EventPool :=
  (p.handles.get? name).map fun id => { p with store := p.store.addTag id tag }

/-- Adds a tag through a handle in the middle of a walk. -/
def walkHolding (p : EventPool) (name : Text) (n : Nat) (tag : Text) :
    Option (HeldWalk × EventPool) :=
  (p.handles.get? name).map fun id =>
    let walk := p.store.walkHolding id n tag
    (walk, { p with store := walk.store })

/-- The bucket of a handle. -/
def bucket? (p : EventPool) (name : Text) : Option Bucket :=
  (p.handles.get? name).bind p.store.bucket?

/-! ### Events -/

/-- Puts an event under a name; the one that was there gives back its handle. -/
def putEvent (p : EventPool) (name : Text) (e : PooledEvent) : EventPool :=
  { p with
    store := p.store.releaseSome ((p.events.get? name).bind PooledEvent.bucket)
    events := p.events.put name e }

/-- Makes an event. -/
def newEvent (p : EventPool) (name context : Text) : Option EventPool :=
  (p.contextId? context).map fun owner => p.putEvent name ⟨owner, none, []⟩

/-- Drops an event. -/
def dropEvent (p : EventPool) (name : Text) : Option EventPool :=
  (p.events.get? name).map fun e =>
    { p with store := p.store.releaseSome e.bucket, events := p.events.remove name }

/-- The bucket of an event. -/
def eventBucket? (p : EventPool) (e : PooledEvent) : Option Bucket := e.bucket.bind p.store.bucket?

/-- An event with the tags of its bucket. -/
def view (p : EventPool) (e : PooledEvent) : Event :=
  ⟨(p.eventBucket? e).map Bucket.tags, e.fields⟩

/-- The event of a name. -/
def event? (p : EventPool) (name : Text) : Option Event := (p.events.get? name).map p.view

/-- Gives an event a handle on a bucket, in place of the one it had; a handle on a bucket of another
context is refused and given back. -/
def assign (p : EventPool) (name : Text) (e : PooledEvent) (id : BucketId) :
    Except EventError Unit × EventPool :=
  if (p.store.bucket? id).map Bucket.owner = some e.owner then
    (.ok (), { p with
      store := p.store.releaseSome e.bucket
      events := p.events.put name { e with bucket := some id } })
  else (.error (.invalidArgument .foreignBucket), { p with store := p.store.release id })

/-- Gives an event a new handle on the bucket of a handle. -/
def assignShared (p : EventPool) (name handle : Text) :
    Option (Except EventError Unit × EventPool) := do
  let e ← p.events.get? name
  let id ← p.handles.get? handle
  return { p with store := p.store.retain id }.assign name e id

/-- Takes a handle away from its name, its bucket still counting it. -/
def takeHandle (p : EventPool) (handle : Text) : Option (BucketId × EventPool) :=
  (p.handles.get? handle).map fun id => (id, { p with handles := p.handles.remove handle })

/-- Gives an event a handle itself, which loses its name.  If there is no such event the handle is
given back. -/
def assignMoved (p : EventPool) (name handle : Text) :
    Option (Except EventError Unit) × EventPool :=
  match p.takeHandle handle with
  | none         => (none, p)
  | some (id, p) =>
    match p.events.get? name with
    | none   => (none, { p with store := p.store.release id })
    | some e => ((p.assign name e id).map some fun p => p)

/-- Makes a handle of an event's bucket, if it has one; tells whether it has. -/
def shareEventBucket (p : EventPool) (name handle : Text) : Option (Bool × EventPool) :=
  (p.events.get? name).map fun e =>
    match e.bucket with
    | some id => (true, { p with store := p.store.retain id }.putHandle handle id)
    | none    => (false, p)

/-- Adds a tag to an event, in a new bucket if it has none. -/
def tagEvent (p : EventPool) (name tag : Text) : Option EventPool :=
  (p.events.get? name).map fun e =>
    match e.bucket with
    | some id => { p with store := p.store.addTag id tag }
    | none    =>
      { p with
        store := (p.store.create e.owner).addTag p.store.length tag
        events := p.events.put name { e with bucket := some p.store.length } }

/-- Adds a field to an event. -/
def addField (p : EventPool) (name : Text) (f : Field) : Option EventPool :=
  (p.events.get? name).map fun e =>
    { p with events := p.events.put name { e with fields := e.fields ++ [f] } }

end EventPool

end EventLog
