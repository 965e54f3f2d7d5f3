import LibMemcached.Impl.Api

/-!
# Routing as a function of the settings

What a client is configured to do, independently of how it came to be: the
hosts in order, the distribution, and the two hash functions. `Settings.step`
says what a configuration call sets. Every setting is overwritten by the last
call that sets it, and a call that fails sets nothing. The three behaviours
`DISTRIBUTION`, `KETAMA` and `KETAMA_WEIGHTED` set the same thing.

`Settings.route` is the server of a key under the settings: the continuum is
weighted when the weighted distribution is selected or some host weighs more
than one.
-/

namespace LM

/-- What the user has configured, as far as routing is concerned. -/
structure Settings where
  servers : List Server := []
  distribution : Distribution := .modula
  hash : Hashkit.Function := .oneAtATime
  ketamaHash : Hashkit.Function := .oneAtATime
  deriving DecidableEq

/-- The function that a successful call selects. -/
def Hashkit.select (H : Hashkit.Hashes) (current : Hashkit.Function) (data : UInt64) :
    Hashkit.Function :=
  match setFunction H current (Algorithm.ofData? data.toUInt32.toNat) with
  | (.success, function) => function
  | _ => current

namespace Settings

/-- The distribution that a successful call selects. -/
def select (s : Settings) : Distribution → Settings
  | .consistentMax => s
  | type => { s with distribution := type }

/-- What a call sets. -/
def step (H : Hashkit.Hashes) (s : Settings) : Call → Settings
  | .serverAddWithWeight hostname port weight =>
    let port := if port = 0 then defaultPort else port
    let hostname :=
      if hostname = [] then ['l', 'o', 'c', 'a', 'l', 'h', 'o', 's', 't'].map Char.toUInt8
      else hostname
    let type := if hostname.head? = some '/'.toUInt8 then .unixSocket else .tcp
    { s with servers := s.servers ++ (Server.create? hostname port weight type).toList }
  | .serverPush list => { s with servers := s.servers ++ list }
  | .serversReset => { s with servers := [] }
  | .behaviorSet .distribution data => s.select (.ofData data.toUInt32.toNat)
  | .behaviorSet .ketama data => s.select (if boolOfData data then .consistentKetama else .modula)
  | .behaviorSet .ketamaWeighted data =>
    if boolOfData data then
      { s.select .consistentWeighted with hash := .md5, ketamaHash := .md5 }
    else s.select .consistentKetama
  | .behaviorSet .hash data => { s with hash := Hashkit.select H s.hash data }
  | .behaviorSet .ketamaHash data => { s with ketamaHash := Hashkit.select H s.ketamaHash data }
  | _ => s

/-- The settings after a list of calls. -/
def configured (H : Hashkit.Hashes) (calls : List (Call × Nat)) : Settings :=
  runFrom (fun s action => step H s action.1) {} calls

/-- Whether the continuum is weighted. -/
def weighted (s : Settings) : Bool :=
  s.distribution = .consistentWeighted || s.servers.any (·.weight > 1)

/-- A client that has the settings and whose continuum is still to be built. -/
def client (s : Settings) : Memcached :=
  { servers := s.servers.map Instance.ofServer
    distribution := s.distribution
    hashkit := { baseHash := s.hash }
    ketama := { weighted := s.weighted } }

/-- The server of a key under the settings. -/
def route (H : Hashkit.Hashes) (s : Settings) (random : Nat) (key : Bytes) : Option Nat :=
  (s.client.runDistribution H 0).2.generateHash H random key

end Settings

end LM
