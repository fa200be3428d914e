import EventLog.Error

/-!
# Tag buckets

A tag bucket is a growing list of tags that several handles share.  The store keeps the buckets by
number and counts the handles of each; when the last handle of a bucket is given back the bucket is
gone, and its number is not used again.  A bucket belongs to the context it was made in.

A cursor walks through the tags of a bucket from outside.  It is unset before the first tag and
behind the last one, so that a walk that has come to the end begins anew.
-/

namespace EventLog

/-- The number of a context. -/
abbrev ContextId := Nat

/-- The number of a bucket. -/
abbrev BucketId := Nat

/-- A list of tags that handles share. -/
structure Bucket where
  owner : ContextId
  tags : List Text
  /-- The number of handles. -/
  handles : Nat
deriving Repr, DecidableEq

/-- Whether a bucket has a tag of exactly this name. -/
def Bucket.hasTag (b : Bucket) (tag : Text) : Bool := b.tags.contains tag

/-- The tags of a bucket with a separator between them. -/
def Bucket.join (b : Bucket) (separator : Text) : Text := separator.intercalate b.tags

/-- All buckets by number; the place of one that is gone stays empty. -/
abbrev TagStore := List (Option Bucket)

namespace TagStore

/-- The bucket of a number, if it is not gone. -/
def bucket? (s : TagStore) (id : BucketId) : Option Bucket := (s[id]?).bind fun b => b

/-- A new bucket with one handle; its number is the number of buckets so far. -/
def create (s : TagStore) (owner : ContextId) : TagStore := s ++ [some ⟨owner, [], 1⟩]

/-- One handle more. -/
def retain (s : TagStore) (id : BucketId) : TagStore :=
  s.modify id fun b => b.map fun b => { b with handles := b.handles + 1 }

/-- A bucket with one handle less, unless that was the last one. -/
def Bucket.released (b : Bucket) : Option Bucket :=
  if b.handles ≤ 1 then none else some { b with handles := b.handles - 1 }

/-- One handle less; without handles the bucket is gone. -/
def release (s : TagStore) (id : BucketId) : TagStore :=
  s.modify id fun b => b.bind Bucket.released

/-- One handle less, if there is a bucket. -/
def releaseSome (s : TagStore) (id : Option BucketId) : TagStore :=
  match id with
  | some id => s.release id
  | none    => s

/-- Adds a tag behind the others. -/
def addTag (s : TagStore) (id : BucketId) (tag : Text) : TagStore :=
  s.modify id fun b => b.map fun b => { b with tags := b.tags ++ [tag] }

/-- Adds a tag while a walk holds on to one of the bucket's tags, or does not. -/
def addTagDuring (s : TagStore) (id : BucketId) (held : Option Text) (tag : Text) :
    Except EventError TagStore :=
  if held.isSome then .error (.invalidArgument .bucketBorrowed) else .ok (s.addTag id tag)

/-- The tags of a bucket. -/
def tags (s : TagStore) (id : BucketId) : List Text := ((s.bucket? id).map Bucket.tags).getD []

end TagStore

/-! ### Walks -/

/-- The place of a walk in a list of tags: how many it has passed, unless it is unset. -/
abbrev Cursor := Option Nat

/-- The next tag of a walk, and where the walk is then. -/
def Cursor.next (c : Cursor) (tags : List Text) : Option Text × Cursor :=
  match tags[c.getD 0]? with
  | some tag => (some tag, some (c.getD 0 + 1))
  | none     => (none, none)

/-- What a walk that was held up has seen. -/
structure HeldWalk where
  /-- The tag that was held on to. -/
  held : Option Text
  result : Except EventError Unit
  /-- The tags it came by afterwards. -/
  rest : List Text
  store : TagStore

/-- Walks past `n` tags, holds on to the last one while a tag is added, and walks on. -/
def TagStore.walkHolding (s : TagStore) (id : BucketId) (n : Nat) (tag : Text) : HeldWalk :=
  let tags := s.tags id
  let held := if n = 0 then none else tags[n - 1]?
  let passed := min n tags.length
  match s.addTagDuring id held tag with
  | .ok s    => ⟨held, .ok (), (s.tags id).drop passed, s⟩
  | .error e => ⟨held, .error e, tags.drop passed, s⟩

end EventLog
