import LibMemcached.Impl.Hosts
import LibMemcached.Impl.Response

/-!
# Statistics

`set_data` and `memcached_stat_get_value` of `libmemcached/stats.cc`. The structure has a number of 64 bits for each
counter and for the two parts of each usage entry; `strtoul` and `strtoull`, and `%lu` and `%llu`, are alike then.
-/

namespace LM

/-- The statistics that are one number. -/
inductive Counter
  | uptime | time | pointerSize | currItems | totalItems | bytesRead | bytesWritten | bytes | currConnections
  | totalConnections | connectionStructures | cmdGet | cmdSet | getHits | getMisses | evictions | limitMaxbytes
  | threads
  deriving DecidableEq

/-- The two `rusage` entries. -/
inductive Usage
  | user | system
  deriving DecidableEq

/-- The statistics that are stored. -/
inductive StatName
  | pid | version | rusage (who : Usage) | counter (c : Counter)
  deriving DecidableEq

def StatName.text : StatName → String
  | pid => "pid"
  | counter .uptime => "uptime"
  | counter .time => "time"
  | version => "version"
  | counter .pointerSize => "pointer_size"
  | rusage .user => "rusage_user"
  | rusage .system => "rusage_system"
  | counter .currItems => "curr_items"
  | counter .totalItems => "total_items"
  | counter .bytesRead => "bytes_read"
  | counter .bytesWritten => "bytes_written"
  | counter .bytes => "bytes"
  | counter .currConnections => "curr_connections"
  | counter .totalConnections => "total_connections"
  | counter .connectionStructures => "connection_structures"
  | counter .cmdGet => "cmd_get"
  | counter .cmdSet => "cmd_set"
  | counter .getHits => "get_hits"
  | counter .getMisses => "get_misses"
  | counter .evictions => "evictions"
  | counter .limitMaxbytes => "limit_maxbytes"
  | counter .threads => "threads"

/-- The order in which `set_data` compares. -/
def StatName.setOrder : List StatName :=
  [pid, counter .uptime, counter .time, version, counter .pointerSize, rusage .user, rusage .system,
    counter .currItems, counter .totalItems, counter .bytesRead, counter .bytesWritten, counter .bytes,
    counter .currConnections, counter .totalConnections, counter .connectionStructures, counter .cmdGet,
    counter .cmdSet, counter .getHits, counter .getMisses, counter .evictions, counter .limitMaxbytes,
    counter .threads]

/-- The order in which `memcached_stat_get_value` compares. -/
def StatName.getOrder : List StatName :=
  [pid, counter .uptime, counter .time, version, counter .pointerSize, rusage .user, rusage .system,
    counter .currItems, counter .totalItems, counter .currConnections, counter .totalConnections,
    counter .connectionStructures, counter .cmdGet, counter .cmdSet, counter .getHits, counter .getMisses,
    counter .evictions, counter .bytesRead, counter .bytesWritten, counter .bytes, counter .limitMaxbytes,
    counter .threads]

/-- The first name in the order that is the key. -/
def StatName.lookup (order : List StatName) (key : Bytes) : Option StatName :=
  order.find? fun name => ascii name.text == key

/-- `memcached_stat_st`. A usage entry has its seconds and its microseconds. -/
structure StatSt where
  pid : Int := -1
  version : Bytes := []
  rusage : Usage → UInt64 × UInt64 := fun _ => (0, 0)
  counter : Counter → UInt64 := fun _ => 0

namespace StatSt

/-- `MEMCACHED_VERSION_STRING_LENGTH`. -/
def versionStringLength : Nat := 24

/-- `SMALL_STRING_LEN`. -/
def smallStringLen : Nat := 1024

/-- `ispunct`. -/
def isPunct (b : UInt8) : Bool :=
  (33 ≤ b && b ≤ 47) || (58 ≤ b && b ≤ 64) || (91 ≤ b && b ≤ 96) || (123 ≤ b && b ≤ 126)

/-- A number of 64 bits, and whether `errno` was set. -/
def readNumber (text : Bytes) : UInt64 × Bool :=
  let (n, _, failed) := strtoull text
  (UInt64.ofNat n, failed)

/-- `set_data`, without the names it swallows. `none` stands for the accesses beyond the value or the field. -/
def setData (s : StatSt) (key value : Bytes) : Option (ReturnT × StatSt) :=
  if key.length < 1 then some (.unknownStatKey, s)
  else match StatName.lookup StatName.setOrder key with
    | some .pid =>
      let (temp, _, failed) := strtol value
      if failed then some (.failure, s)
      else if temp ≤ 2 ^ 31 - 1 then some (.success, { s with pid := temp.bmod (2 ^ 32) })
      else if temp > -1 then some (.success, { s with pid := temp.bmod (2 ^ 32) })
      else some (.success, s)
    | some .version =>
      if value.length < versionStringLength then some (.success, { s with version := value }) else none
    | some (.rusage who) =>
      match value.dropWhile (!isPunct ·) with
      | [] => none
      | _ :: walk =>
        let (seconds, failed) := readNumber (value.takeWhile (!isPunct ·))
        let s := { s with rusage := Function.update s.rusage who (seconds, (s.rusage who).2) }
        if failed then some (.failure, s)
        else
          let (microseconds, failed) := readNumber walk
          let s := { s with rusage := Function.update s.rusage who (seconds, microseconds) }
          some (if failed then .failure else .success, s)
    | some (.counter c) =>
      let (n, failed) := readNumber value
      some (if failed then .failure else .success, { s with counter := Function.update s.counter c n })
    | none => some (.success, s)

/-- What `snprintf` writes for a name. -/
def render (s : StatSt) : StatName → Bytes
  | .pid => ascii (toString s.pid)
  | .version => s.version
  | .rusage who => decimal (s.rusage who).1.toNat ++ ascii "." ++ decimal (s.rusage who).2.toNat
  | .counter c => decimal (s.counter c).toNat

/-- `memcached_stat_get_value`. -/
def getValue (s : StatSt) (key : Bytes) : Except ReturnT Bytes :=
  match StatName.lookup StatName.getOrder key with
  | some name => if (s.render name).length ≥ smallStringLen then .error .failure else .ok (s.render name)
  | none => .error .invalidArguments

/-- Statistics stored one after the other, whatever code each gives. -/
def setAll (s : StatSt) : List (Bytes × Bytes) → Option StatSt
  | [] => some s
  | (key, value) :: rest => (s.setData key value).bind fun r => r.2.setAll rest

end StatSt

end LM
