import Overlay.PeerRecord

/-!
# Stores of peers

What a node keeps of its peers between runs: records under the texts of their
endpoints, in byte order.  A store keeps bytes, so that a record may turn out
not to be one.
-/

namespace Overlay

/-- A store: keys with values, in byte order of the keys. -/
structure PeerStore where
  entries : List (Bytes × Bytes) := []

namespace PeerStore

def key (e : Endpoint) : Bytes :=
  Bytes.ofText e.display

/-- Puts a value under a key. -/
def putEntry (k v : Bytes) : List (Bytes × Bytes) → List (Bytes × Bytes)
  | [] => [(k, v)]
  | entry :: rest =>
    if k = entry.1 then (k, v) :: rest
    else if Bytes.lt k entry.1 then (k, v) :: entry :: rest
    else entry :: putEntry k v rest

/-- Puts a value under a key. -/
def put (store : PeerStore) (k v : Bytes) : PeerStore :=
  ⟨putEntry k v store.entries⟩

/-- Records a peer as seen at a time. -/
def add (store : PeerStore) (e : Endpoint) (now : Int64) : PeerStore :=
  store.put (key e) (PeerRecord.encode ⟨e, now⟩)

def contains (store : PeerStore) (e : Endpoint) : Bool :=
  store.entries.any (·.1 == key e)

def remove (store : PeerStore) (e : Endpoint) : PeerStore :=
  ⟨store.entries.filter (·.1 != key e)⟩

/-- Takes a peer out of a store: whether it was there, and the store without it. -/
def take (store : PeerStore) (e : Endpoint) : Bool × PeerStore :=
  (store.contains e, store.remove e)

/-- Reads values in order, up to the first that is not a record. -/
def readEntries : List (Bytes × Bytes) → Except NetError (List PeerRecord)
  | [] => .ok []
  | entry :: rest =>
    match Payload.deserialize PeerRecord.decode entry.2 with
    | .error e => .error e
    | .ok record => (readEntries rest).map (record :: ·)

def records (store : PeerStore) : Except NetError (List PeerRecord) :=
  readEntries store.entries

def endpoints (store : PeerStore) : Except NetError (List Endpoint) :=
  store.records.map (·.map (·.endpoint))

end PeerStore

end Overlay
