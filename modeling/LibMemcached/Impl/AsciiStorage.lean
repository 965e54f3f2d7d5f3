import LibMemcached.Impl.AsciiHandler

/-!
# Storage commands in machine arithmetic

`process_storage_command` with its `unsigned long` and `ssize_t` arithmetic: the number of bytes
needed is added up in 64 bits and compared as a signed number, and the length of the data is handed
to the callback in 32 bits. The data is given by its place, since the callback may be given more
than there is.
-/

namespace LM

/-- `(ssize_t) n` for an `unsigned long n`. -/
def ssizeT (n : Nat) : Int := (n : Int).bmod (2 ^ 64)

/-- The arguments of a storage callback. The data begins behind the line feed. -/
structure StorageArguments where
  key : Bytes
  datalen : Nat
  flags : Nat
  timeout : Nat
  cas : Nat
  deriving DecidableEq

/-- What `process_storage_command` does: it ends the connection, waits for more data, or calls the
callback and goes on so many bytes behind the line feed. -/
inductive StorageStep
  | ended
  | more
  | called (arguments : StorageArguments) (next : Nat)
  deriving DecidableEq

/-- The `cas` argument: `none` if it is out of range. -/
def storageCas (command : AsciiCmd) (tokens : List Bytes) : Option Nat :=
  if command = .cas then
    match strtoull (tokens.getD 5 []) with
    | (_, _, true) => none
    | (cas, _, false) => some cas
  else some 0

/-- `process_storage_command`: `end_` is the offset of the line feed and `length` the number of bytes
available from the first byte of the line on. -/
def storageStep (command : AsciiCmd) (tokens : List Bytes) (end_ length : Nat) : StorageStep :=
  match tokenKey (tokens.getD 1 []), strtoull (tokens.getD 2 []), strtoull (tokens.getD 3 []),
      strtoull (tokens.getD 4 []) with
  | some key, (flags, _, false), (timeout, _, false), (nbytes, _, false) =>
    let need := (nbytes + (end_ + 1) + 2) % 2 ^ 64
    if ssizeT need > length then .more
    else
      match storageCas command tokens with
      | none => .ended
      | some cas =>
        .called ⟨key, nbytes % 2 ^ 32, flags % 2 ^ 32, timeout % 2 ^ 32, cas⟩ ((nbytes + 2) % 2 ^ 64)
  | _, _, _, _ => .ended

end LM
