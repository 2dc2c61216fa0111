import TypedConfig.Schema.Load

/-! # A cache of schemas

Loaded schemas are kept under the bytes that determine them, so that the same declarations are
not read again. When the cache is full, the schema that has not been asked for longest makes room.
-/

namespace TypedConfig

/-- The bytes that a schema is kept under. -/
abbrev CacheKey := List UInt8

namespace CacheKey

/-- A number below 2⁶⁴ in eight bytes, the lowest first. -/
def ofNumber (n : Nat) : CacheKey := (List.range 8).map fun i => (n / Nat.pow 256 i).toUInt8

/-- A text after its length. -/
def ofText (s : String) : CacheKey := ofNumber s.utf8ByteSize ++ s.toUTF8.data.toList

def ofSource (s : Source) : CacheKey := ofText s.name ++ ofText s.text

/-- The key of what sources declare within limits: the sources in order, and the limits that
loading goes by. -/
def of (limits : Limits) (sources : List Source) : CacheKey :=
  sources.flatMap ofSource ++ ofNumber limits.maxSourceBytes ++ ofNumber limits.maxDepth

end CacheKey

/-- A schema in a cache. The serial number tells apart schemas that were loaded apart. -/
structure CachedSchema where
  schema : Schema
  serial : Nat

/-- A cache of schemas, the one last asked for first. -/
structure SchemaCache where
  capacity : Nat
  capacity_pos : 0 < capacity
  entries : List (CacheKey × CachedSchema)
  /-- The serial number of the next schema. -/
  next : Nat

inductive CacheError
  | zeroCapacity
deriving DecidableEq, Repr

namespace CacheError

def message : CacheError → String
  | zeroCapacity => "Cache capacity must be non-zero"

def diagnostic (e : CacheError) : Diagnostic := ⟨"pipetype::cache::capacity", e.message, none⟩

end CacheError

namespace SchemaCache

/-- An empty cache for a number of schemas. -/
def ofCapacity (capacity : Nat) : Except CacheError SchemaCache :=
  if h : 0 < capacity then .ok ⟨capacity, h, [], 0⟩ else .error .zeroCapacity

def size (c : SchemaCache) : Nat := c.entries.length

def isEmpty (c : SchemaCache) : Bool := c.entries.isEmpty

def clear (c : SchemaCache) : SchemaCache := { c with entries := [] }

def others (c : SchemaCache) (key : CacheKey) : List (CacheKey × CachedSchema) :=
  c.entries.filter fun e => e.1 != key

/-- Looks a key up; what is found counts as asked for last. -/
def find (c : SchemaCache) (key : CacheKey) : Option CachedSchema × SchemaCache :=
  match c.entries.find? fun e => e.1 == key with
  | some e => (some e.2, { c with entries := (key, e.2) :: c.others key })
  | none => (none, c)

def store (c : SchemaCache) (key : CacheKey) (schema : Schema) : CachedSchema × SchemaCache :=
  let cached : CachedSchema := ⟨schema, c.next⟩
  (cached, { c with
    entries := ((key, cached) :: c.others key).take c.capacity
    next := c.next + 1 })

/-- The schema of sources, loaded only if it is not in the cache. A failed load leaves the cache
as it was. -/
def getOrLoad (c : SchemaCache) (limits : Limits) (sources : List Source) :
    Except SchemaError CachedSchema × SchemaCache :=
  let key := CacheKey.of limits sources
  match c.find key with
  | (some cached, c) => (.ok cached, c)
  | (none, c) =>
    match Schema.load limits sources with
    | .error e => (.error e, c)
    | .ok schema =>
      let (cached, c) := c.store key schema
      (.ok cached, c)

end SchemaCache

end TypedConfig
