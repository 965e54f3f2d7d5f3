import LibMemcached.Impl.BinaryHandler

/-!
# Pedantic checks, and what the handlers take from a request

`memcached_binary_protocol_pedantic_check_request` (`pedantic.c`), `execute_command` with its
pedantic mode, and the pointer arithmetic of the command handlers of version 1: where the fields of
the extras, the key and the data begin, counted from the header, and how long they are.
-/

namespace LM

/-! ## The check of a request -/

/-- The fields of the header that only the check reads. -/
def RequestHeader.extlen (mem : Bytes) : Nat := (mem.getD 4 0).toNat

def RequestHeader.datatype (mem : Bytes) : UInt8 := mem.getD 5 0

/-- The part of the check that depends on the command. -/
def pedanticCheckCommand (mem : Bytes) : Bool :=
  let r := RequestHeader.ofBytes mem
  let extlen := RequestHeader.extlen mem
  match r.opcode with
  | 0x00 | 0x0c | 0x0d | 0x09 =>
    extlen = 0 && decide (r.keylen > 0) && r.keylen = r.bodylen && r.cas = 0
  | 0x02 | 0x12 => r.cas = 0 && decide (r.keylen > 0) && extlen = 8
  | 0x01 | 0x11 | 0x03 | 0x13 => decide (r.keylen > 0) && extlen = 8
  | 0x04 | 0x14 => extlen = 0 && decide (r.keylen > 0) && r.keylen = r.bodylen
  | 0x05 | 0x15 | 0x06 | 0x16 =>
    extlen = 20 && decide (r.keylen > 0) && r.keylen + extlen = r.bodylen
  | 0x07 | 0x17 | 0x0a | 0x0b => extlen = 0 && r.keylen = 0 && r.bodylen = 0
  | 0x08 | 0x18 => (extlen = 0 || extlen = 4) && r.keylen = 0 && r.bodylen = extlen
  | 0x10 => extlen = 0 && r.keylen = r.bodylen
  | 0x0e | 0x19 | 0x0f | 0x1a => extlen = 0 && decide (r.keylen > 0)
  | _ => true

/-- `memcached_binary_protocol_pedantic_check_request`. -/
def pedanticCheckRequest (mem : Bytes) : Bool :=
  let r := RequestHeader.ofBytes mem
  r.magic = binaryReq && RequestHeader.datatype mem = 0 && mem.getD 6 0 = 0 && mem.getD 7 0 = 0 &&
    decide (r.bodylen ≥ r.keylen + RequestHeader.extlen mem) && pedanticCheckCommand mem

variable {σ : Type}

/-- `execute_command` with its pedantic mode: the branch of a request that passes the check is empty,
and so is that of one that does not. -/
def executeCommandPedantic (pedantic : Bool) (callbacks : Callbacks σ)
    (unknown : Option (RawCallback σ)) (mem : Bytes) (s : Serving σ) : Handled σ :=
  let s := if pedantic && pedanticCheckRequest mem then s else s
  executeCommand callbacks unknown mem s

/-! ## What the handlers take -/

/-- Bytes behind the beginning of the header. -/
structure Span where
  offset : Nat
  length : Nat
  deriving DecidableEq

/-- What a command handler takes from the memory: the fields of the extras it reads, and the key and
the data it hands to its callback. -/
structure Taken where
  fields : List Span := []
  key : Option Span := none
  data : Option Span := none
  deriving DecidableEq

/-- `sizeof(*header)` and the extras, then the key. -/
def keySpan (r : RequestHeader) (extras : Nat) : Span := ⟨headerLength + extras, r.keylen⟩

/-- `ntohl(header->request.bodylen) - keylen - extras` in 32 bits. -/
def datalen (r : RequestHeader) (extras : Nat) : Nat := (r.bodylen + 2 ^ 33 - r.keylen - extras) % 2 ^ 32

def dataSpan (r : RequestHeader) (extras : Nat) : Span :=
  ⟨headerLength + extras + r.keylen, datalen r extras⟩

/-- The handlers of `add`, `replace` and `set`. -/
def storageTaken (r : RequestHeader) : Taken :=
  ⟨[⟨24, 4⟩, ⟨28, 4⟩], some (keySpan r 8), some (dataSpan r 8)⟩

/-- The handlers of `append` and `prepend`. -/
def concatenationTaken (r : RequestHeader) : Taken := ⟨[], some (keySpan r 0), some (dataSpan r 0)⟩

/-- The handlers of `increment` and `decrement`. -/
def arithmeticTaken (r : RequestHeader) : Taken :=
  ⟨[⟨24, 8⟩, ⟨32, 8⟩, ⟨40, 4⟩], some (keySpan r 20), none⟩

/-- The handlers that take a key only. -/
def keyTaken (r : RequestHeader) : Taken := ⟨[], some (keySpan r 0), none⟩

/-- `flush_command_handler`. -/
def flushTaken (r : RequestHeader) : Taken :=
  ⟨if r.bodylen = 4 then [⟨24, 4⟩] else [], none, none⟩

/-- The callback of a command, and what its handler takes when the callback is there. -/
def handlerTaken (r : RequestHeader) : Option (Callback × Taken) :=
  match r.opcode with
  | 0x12 | 0x02 => some (.add, storageTaken r)
  | 0x19 | 0x0e => some (.append, concatenationTaken r)
  | 0x16 | 0x06 => some (.decrement, arithmeticTaken r)
  | 0x14 | 0x04 => some (.deleteObject, keyTaken r)
  | 0x18 | 0x08 => some (.flushObject, flushTaken r)
  | 0x0d | 0x0c | 0x09 | 0x00 => some (.get, keyTaken r)
  | 0x15 | 0x05 => some (.increment, arithmeticTaken r)
  | 0x0a => some (.noop, {})
  | 0x1a | 0x0f => some (.prepend, concatenationTaken r)
  | 0x17 | 0x07 => some (.quit, {})
  | 0x13 | 0x03 => some (.replace, storageTaken r)
  | 0x11 | 0x01 => some (.set, storageTaken r)
  | 0x10 => some (.stat, keyTaken r)
  | 0x0b => some (.version, {})
  | _ => none

/-- What `execute_command` takes through the callbacks of version 1: nothing for an unknown command
or a callback that is not there. -/
def executeTaken (I : Interface σ) (mem : Bytes) : Taken :=
  match handlerTaken (RequestHeader.ofBytes mem) with
  | some (callback, taken) => if I.present callback then taken else {}
  | none => {}

end LM
