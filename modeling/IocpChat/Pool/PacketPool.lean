import Mathlib.Data.List.Range

/-!
# The packet pool

`PacketPool` owns all packets of the server.  A packet is known by its index.  `availableIdx`
is a queue of the packets that can be borrowed, and `inUse` marks the others; both are kept
under one lock.  `returnPacket` resets the packet before it looks at `inUse`, so it also
resets one that was returned before.

The counters of packets in use are only written, and are left out.

## Main definitions

* `PacketPool`, `borrowPacket`, `returnPacket` — the pool.
-/

namespace IocpChat

abbrev PacketPtr := ℕ

/-- The pool, with the field `bypassQueue` of its packets. -/
structure PacketPool where
  availableIdx : List PacketPtr
  inUse : PacketPtr → Bool
  bypassQueue : PacketPtr → Bool

namespace PacketPool

def currentSize : ℕ := 25000

def new : PacketPool := ⟨List.range currentSize, fun _ => false, fun _ => false⟩

/-- The loop of `borrowPacket`, which skips packets in use.  It does not look for the end of
the queue. -/
def nextAvailable (inUse : PacketPtr → Bool) : List PacketPtr → Option (PacketPtr × List PacketPtr)
  | [] => none
  | id :: rest => if inUse id then nextAvailable inUse rest else some (id, rest)

/-- Take a packet, or null if none is left. -/
def borrowPacket (pool : PacketPool) : Option (PacketPool × Option PacketPtr) :=
  if pool.availableIdx = [] then some (pool, none)
  else
    (nextAvailable pool.inUse pool.availableIdx).map fun r =>
      ({ pool with availableIdx := r.2, inUse := Function.update pool.inUse r.1 true }, some r.1)

def returnPacket (pool : PacketPool) (p : PacketPtr) : PacketPool :=
  if currentSize ≤ p then pool
  else
    -- `clearInPointer`
    let pool := { pool with bypassQueue := Function.update pool.bypassQueue p false }
    if pool.inUse p then
      { pool with
        availableIdx := pool.availableIdx ++ [p]
        inUse := Function.update pool.inUse p false }
    else pool

end PacketPool

end IocpChat
