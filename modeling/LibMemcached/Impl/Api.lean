import LibMemcached.Framework.Run
import LibMemcached.Impl.Behavior

/-!
# Configuration calls

The public calls that configure a client, as the actions of a state machine. An
action carries the reading of the clock that the call sees. That a server is
marked for retry is an action as well: connecting does it, between the calls.
-/

namespace LM

/-- A configuration call. -/
inductive Call
  | serverAddWithWeight (hostname : Bytes) (port : UInt16) (weight : UInt32)
  | serverAddUnixSocketWithWeight (filename : Bytes) (weight : UInt32)
  | serverPush (list : List Server)
  | serversReset
  | behaviorSet (flag : Behavior) (data : UInt64)
  | bucketSet (hostMap : Option (Nat → UInt32)) (forwardMap : Option (Nat → UInt32))
      (buckets replicas : UInt32)
  | setNamespace (key : Option Bytes)
  | setConfigurationFile (filename : Bytes)
  | markForRetry (serverKey nextRetry : Nat)

namespace Memcached

/-- The return code and the client after a call. -/
def perform (H : Hashkit.Hashes) (ptr : Memcached) (now : Nat) : Call → ReturnT × Memcached
  | .serverAddWithWeight hostname port weight => ptr.serverAddWithWeight H now hostname port weight
  | .serverAddUnixSocketWithWeight filename weight =>
    ptr.serverAddUnixSocketWithWeight H now filename weight
  | .serverPush list => ptr.serverPush H now list
  | .serversReset => (.success, ptr.serversReset)
  | .behaviorSet flag data => ptr.behaviorSet H now flag data
  | .bucketSet hostMap forwardMap buckets replicas =>
    ptr.bucketSet H now hostMap forwardMap buckets replicas
  | .setNamespace key => ptr.setNamespace key
  | .setConfigurationFile filename => (.success, ptr.setConfigurationFile filename)
  | .markForRetry serverKey nextRetry => (.success, ptr.markForRetry serverKey nextRetry)

/-- One step of the machine: a call at a time. -/
def step (H : Hashkit.Hashes) (ptr : Memcached) (action : Call × Nat) : Memcached :=
  (ptr.perform H action.2 action.1).2

/-- The client after a list of calls on a new one. -/
def configured (H : Hashkit.Hashes) (calls : List (Call × Nat)) : Memcached :=
  runFrom (step H) create calls

end Memcached

end LM
