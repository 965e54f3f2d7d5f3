import LibMemcached.Impl.Response

/-!
# Server lists in text

`libmemcached/parse.cc` and `memcached_server_list_append_with_weight`. A list of servers is what its
first entry, which carries the number of hosts, makes of it; `NULL` is the empty list. A C string is given
by the bytes in front of its zero byte. What is undefined in C is `none`.
-/

namespace LM

/-- The size of the buffer for an entry. -/
def hugeStringLen : Nat := 8196

/-- `strchr`: the text in front of the first `c`, and the text behind it. -/
def strchr (text : Bytes) (c : UInt8) : Option (Bytes × Bytes) :=
  match text.dropWhile (· != c) with
  | [] => none
  | _ :: behind => some (text.takeWhile (· != c), behind)

/-- `memcached_server_list_append_with_weight`. The number of hosts has 32 bits, and `realloc` to no bytes
at all frees the list and returns `NULL`. A name that does not fit is reported to the client, and there is
none. -/
def serverListAppendWithWeight (list : List Server) (hostname : Bytes) (port : UInt16) (weight : UInt32) :
    Option (List Server) :=
  let port := if hostname.head? = some '/'.toUInt8 then 0 else if port = 0 then defaultPort else port
  let count := (1 + list.length) % 2 ^ 32
  if count = 0 then some []
  else do
    let server ← Server.create? hostname port weight (if port = 0 then .unixSocket else .tcp)
    return list ++ [server]

/-- The colon behind the host name: behind the first bracket that is closed, if there is one. -/
def hostColon (buffer : Bytes) : Option (Bytes × Bytes) :=
  match strchr buffer '['.toUInt8 with
  | none => strchr buffer ':'.toUInt8
  | some (front, inside) =>
    match strchr inside ']'.toUInt8 with
    | none => strchr buffer ':'.toUInt8
    | some (address, behind) => (strchr behind ':'.toUInt8).map fun (more, ptr) =>
      (front ++ '['.toUInt8 :: address ++ ']'.toUInt8 :: more, ptr)

/-- The name, the port and the weight of an entry. A number that is out of range ends it all. -/
def parseEntry (buffer : Bytes) : Option (Bytes × UInt16 × UInt32) :=
  match hostColon buffer with
  | none => some (buffer, 0, 0)
  | some (hostname, ptr) =>
    let (port, _, errno) := strtoull ptr
    if errno then none
    else
      match (strchr ptr ' '.toUInt8).or (strchr ptr ':'.toUInt8) with
      | none => some (hostname, .ofNat port, 0)
      | some (_, ptr2) =>
        let (weight, _, errno) := strtoull ptr2
        if errno then none else some (hostname, .ofNat port, .ofNat weight)

theorem length_strchr_lt {text front behind : Bytes} {c : UInt8} (h : strchr text c = some (front, behind)) :
    behind.length < text.length := by
  unfold strchr at h
  split at h
  · cases h
  · next heq =>
    cases h
    have hle := (List.dropWhile_sublist (p := (· != c)) (l := text)).length_le
    rw [heq, List.length_cons] at hle
    omega

/-- The loop of `memcached_servers_parse`, from `begin_ptr` on. -/
def serversParseLoop (servers : List Server) (text : Bytes) : Option (List Server) :=
  if _ : text = [] then some servers
  else
    let entry := (strchr text ','.toUInt8).getD (text, [])
    if hugeStringLen ≤ entry.1.length then none
    else
      match parseEntry entry.1 with
      | none => some []
      | some (hostname, port, weight) =>
        match serverListAppendWithWeight servers hostname port weight with
        | none => none
        | some servers =>
          serversParseLoop servers (if entry.2.head?.any isSpace then entry.2.tail else entry.2)
termination_by text.length
decreasing_by
  have hlt : ((strchr text ','.toUInt8).getD (text, [])).2.length < text.length := by
    cases h : strchr text ','.toUInt8 with
    | none => exact List.length_pos_iff.mpr ‹¬text = []›
    | some entry => exact length_strchr_lt h
  split
  · exact Nat.lt_of_le_of_lt (List.length_tail ▸ Nat.sub_le _ _) hlt
  · exact hlt

/-- `memcached_servers_parse`. -/
def memcachedServersParse (serverStrings : Bytes) : Option (List Server) := serversParseLoop [] serverStrings

end LM
