import Overlay.Endpoint

/-!
# Policies

How patient a node is with its peers, and how many of them it wants.  Times
are in milliseconds.
-/

namespace Overlay

/-- How a link is used, and how often and after what waits a lost one is dialed again. -/
structure LinkPolicy where
  attempts : Nat := 3
  delay : Nat := 500
  maxDelay : Nat := 10000
  chunkSize : Nat := 65536
  deriving DecidableEq, Repr

/-- What a pool of peers aims at. -/
structure PoolPolicy where
  target : Nat := 8
  bootnodes : List Endpoint := []
  selfEndpoint : Option Endpoint := none
  link : LinkPolicy := {}
  requestTimeout : Nat := 3000
  goodbyeTimeout : Nat := 200
  bookCapacity : Nat := 20
  deriving DecidableEq, Repr

end Overlay
