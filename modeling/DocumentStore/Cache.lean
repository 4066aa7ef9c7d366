/-!
# Expiring caches

A table of bounded size whose entries also expire.  An entry lives for a fixed
time after it was inserted; when the table is full, the entry that was used
least recently makes room.  The entries are a list with the most recently used
first.  Time is a number handed in with each operation.
-/

namespace DocumentStore

universe u v

/-- What became of lookups and entries so far. -/
structure CacheStats where
  hits : Nat
  misses : Nat
  /-- Live entries that made room for others. -/
  evictions : Nat
  /-- Entries dropped because their time was over. -/
  expirations : Nat
deriving DecidableEq, Repr

/-- Nothing has happened. -/
def CacheStats.zero : CacheStats := ⟨0, 0, 0, 0⟩

/-- An entry with the time of its insertion. -/
structure CacheEntry (κ : Type u) (ν : Type v) where
  key : κ
  value : ν
  insertedAt : Nat
deriving DecidableEq, Repr

/-- A bounded table of entries that expire, the most recently used first. -/
structure Cache (κ : Type u) (ν : Type v) where
  capacity : Nat
  lifetime : Nat
  entries : List (CacheEntry κ ν)
  stats : CacheStats
deriving DecidableEq, Repr

namespace Cache

variable {κ : Type u} {ν : Type v}

/-- An empty table.  Capacity zero counts as one. -/
def new (capacity lifetime : Nat) : Cache κ ν :=
  ⟨max 1 capacity, lifetime, [], CacheStats.zero⟩

/-- Whether an entry has reached the end of its lifetime. -/
def expired
    (c : Cache κ ν)
    (now : Nat)
    (e : CacheEntry κ ν) :
    Bool :=
  c.lifetime ≤ now - e.insertedAt

/-- The number of entries. -/
def size (c : Cache κ ν) : Nat :=
  c.entries.length

/-- Drop every expired entry and count them. -/
def sweep
    (c : Cache κ ν)
    (now : Nat) :
    Nat × Cache κ ν :=
  let dropped := (c.entries.filter (c.expired now)).length
  (dropped,
    { c with
      entries := c.entries.filter fun e => !c.expired now e
      stats := { c.stats with expirations := c.stats.expirations + dropped } })

/-- Drop every entry; the statistics stay. -/
def clear (c : Cache κ ν) : Cache κ ν :=
  { c with entries := [] }

variable [DecidableEq κ]

/-- The entry of a key, live or not. -/
def entryAt?
    (c : Cache κ ν)
    (key : κ) :
    Option (CacheEntry κ ν) :=
  c.entries.find? fun e => e.key = key

/-- The entries of other keys. -/
def without
    (c : Cache κ ν)
    (key : κ) :
    List (CacheEntry κ ν) :=
  c.entries.filter fun e => e.key ≠ key

/-- Look up a key.  A live entry becomes the most recently used; an expired one is dropped. -/
def get
    (c : Cache κ ν)
    (key : κ)
    (now : Nat) :
    Option ν × Cache κ ν :=
  match c.entryAt? key with
  | none =>
      (none, { c with stats := { c.stats with misses := c.stats.misses + 1 } })
  | some e =>
      if c.expired now e then
        (none,
          { c with
            entries := c.without key
            stats :=
              { c.stats with
                misses := c.stats.misses + 1
                expirations := c.stats.expirations + 1 } })
      else
        (some e.value,
          { c with
            entries := e :: c.without key
            stats := { c.stats with hits := c.stats.hits + 1 } })

/--
Insert or replace an entry, which becomes the most recently used.  A new key
in a full table displaces the least recently used entry; its key is returned
when it was still live.
-/
def insert
    (c : Cache κ ν)
    (key : κ)
    (value : ν)
    (now : Nat) :
    Option κ × Cache κ ν :=
  let fresh : CacheEntry κ ν := ⟨key, value, now⟩
  if (c.entryAt? key).isSome then
    (none, { c with entries := fresh :: c.without key })
  else if c.entries.length < c.capacity then
    (none, { c with entries := fresh :: c.entries })
  else
    match c.entries.getLast? with
    | none => (none, { c with entries := [fresh] })
    | some old =>
        let entries := fresh :: c.entries.dropLast
        if c.expired now old then
          (none,
            { c with
              entries
              stats := { c.stats with expirations := c.stats.expirations + 1 } })
        else
          (some old.key,
            { c with
              entries
              stats := { c.stats with evictions := c.stats.evictions + 1 } })

end Cache
end DocumentStore
