import LibMemcached.Impl.AsciiStorage
import LibMemcached.Impl.Output

/-!
# What a line of the text protocol touches

A round of `memcached_ascii_protocol_process_data` once more, as what happens on the way: the elements
of the token vector that are read, the bytes that are taken for a key, a number or an argument, the
callbacks, and the responses, of which those of `ascii_raw_response_handler` assert that output is
pending. A pointer is the offset from the first byte of the line.
-/

namespace LM

variable {σ : Type}

/-- What happens in a round. -/
inductive LineEvent where
  /-- `tokens[index]` is read. -/
  | token (index : Int)
  /-- A key, a number or an argument is taken from memory. -/
  | region (start len : Nat)
  | call (invocation : Invocation)
  /-- An assignment to `mute`. -/
  | mute (on : Bool)
  /-- `ascii_raw_response_handler`. -/
  | raw (text : Bytes)
  /-- `spool`, called directly. -/
  | spool (data : Bytes)
  | abort

/-- The pointers that `ascii_tokenize_command` writes to its vector, for the rest of a line at `str`. -/
def tokenizeStarts : Nat → Nat → Nat → Bytes → List Nat
  | 0, _, _, _ => []
  | _ + 1, 0, _, _ => []
  | fuel + 1, size + 1, str, rest =>
    let str := str + (rest.takeWhile isSpace).length
    let rest := rest.dropWhile isSpace
    if rest = [] then []
    else
      let word := rest.takeWhile (!isSpace ·)
      match rest.dropWhile (!isSpace ·) with
      | [] => [str]
      | _ :: rest => str :: tokenizeStarts fuel size (str + word.length + 1) rest

/-- The token vector of a line. -/
def tokenVector (line : Bytes) : List Nat := tokenizeStarts (line.length + 1) maxTokens 0 line

/-- A line that was taken apart: the memory from its first byte on, its vector, the number of tokens
without `noreply`, the offset of the line feed and the number of bytes available. -/
structure Tokenized where
  mem : Bytes
  tokens : List Nat
  ntokens : Nat
  end_ : Nat
  length : Nat

namespace Tokenized

variable (t : Tokenized)

/-- The zero-terminated string at `tokens[i]`. -/
def string (i : Nat) : Bytes := cString (t.mem.drop (t.tokens.getD i 0))

/-- `parse_ascii_key` at `tokens[i]`: where the key begins and its length. -/
def key (i : Nat) : Option (Nat × Nat) :=
  let (blanks, nkey) := parseAsciiKey (t.mem.drop (t.tokens.getD i 0))
  if nkey = 0 then none else some (t.tokens.getD i 0 + blanks, nkey)

/-- The memory with the line put together again. -/
def recovered : Bytes := recoverTokenizeCommand (t.mem.take (t.end_ + 1)) ++ t.mem.drop (t.end_ + 1)

/-- The argument of `stats` in that memory: where it begins and its length, in 16 bits. -/
def statsKey : Nat × Nat :=
  let key := 6 + ((t.recovered.drop 6).takeWhile isSpace).length
  (key, (t.end_ + 2 ^ 32 - key) % 2 ^ 16)

/-- Not all of the data of a storage command is there: the sum has 64 bits and is compared as a signed
number. -/
def lacksData (nbytes : Nat) : Bool := ssizeT ((nbytes + (t.end_ + 1) + 2) % 2 ^ 64) > t.length

/-- `tokens[i]` is given to `strtoull` or `strtoul`. -/
def number (i : Nat) : List LineEvent :=
  [.token i, .region (t.tokens.getD i 0) (t.string i).length]

end Tokenized

/-! ## Responses -/

/-- `ascii_raw_response_handler`. -/
def LineEvent.response (text : String) : LineEvent := .raw (ascii text)

/-- `send_command_usage`. -/
def usageEvents (command : AsciiCmd) : List LineEvent := [.mute false, .response command.usage]

/-- The callback is missing. -/
def notImplementedEvents : List LineEvent := [.response "SERVER_ERROR: callback not implemented\r\n"]

/-- `ascii_get_response_handler`. -/
def hitEvents (command : AsciiCmd) (hit : Hit) : List LineEvent :=
  if graphicKey hit.key then [.spool (valueLine command hit), .spool hit.body, .spool (ascii "\r\n")]
  else []

/-- `ascii_stat_response_handler`. -/
def statEvents (entry : StatEntry) : List LineEvent :=
  match entry.key with
  | some key => [.response "STAT ", .spool key, .response " ", .spool entry.body, .response "\r\n"]
  | none => [.response "END\r\n"]

/-- `ascii_version_response_handler`. -/
def versionEvents (text : Bytes) : List LineEvent :=
  [.response "VERSION ", .spool text, .response "\r\n"]

/-! ## Commands -/

section Commands

variable (I : Interface σ)

/-- The loop of `ascii_process_gets`. -/
def getsLoopEvents (mem : Bytes) (end_ : Nat) : Nat → Nat → Serving σ → List LineEvent
  | 0, _, _ => []
  | fuel + 1, key, s =>
    if key < end_ then
      let (blanks, nkey) := parseAsciiKey (mem.drop key)
      if nkey = 0 then []
      else
        let key := key + blanks
        let call : Invocation := .get (slice mem key nkey)
        .region key nkey :: .call call ::
          ((s.invoke I call).1.hits.flatMap (hitEvents s.asciiCommand) ++
            getsLoopEvents mem end_ fuel (key + nkey)
              (s.invokeWith I call (·.hits) asciiGetResponseHandler))
    else []

/-- `ascii_process_gets`. -/
def processGetsEvents (mem : Bytes) (end_ : Nat) (s : Serving σ) : List LineEvent :=
  let events := getsLoopEvents I mem end_ end_ (if s.asciiCommand = .gets then 5 else 4) s
  if events = [] then usageEvents s.asciiCommand else events ++ [.spool (ascii "END\r\n")]

variable (t : Tokenized) (s : Serving σ)

/-- `process_delete`. The key is read from the vector before the tokens are counted. -/
def processDeleteEvents : List LineEvent :=
  .token 1 ::
    if t.ntokens ≠ 2 then usageEvents s.asciiCommand
    else
      match t.key 1 with
      | none => usageEvents s.asciiCommand
      | some (key, nkey) =>
        .region key nkey ::
          if I.present .deleteObject then
            let call : Invocation := .deleteObject (slice t.mem key nkey) 0
            [.call call, .response (match (s.invoke I call).1.status with
              | .success => "DELETED\r\n"
              | .keyEnoent => "NOT_FOUND\r\n"
              | rval => "SERVER_ERROR: delete_object failed " ++ toString rval.code ++ "\r\n")]
          else notImplementedEvents

/-- `process_arithmetic`. -/
def processArithmeticEvents : List LineEvent :=
  .token 1 ::
    if t.ntokens ≠ 3 then usageEvents s.asciiCommand
    else
      match t.key 1 with
      | none => usageEvents s.asciiCommand
      | some (key, nkey) =>
        .region key nkey :: (t.number 2 ++
          match strtoull (t.string 2) with
          | (_, _, true) => []
          | (delta, _, false) =>
            let call : Invocation :=
              if s.asciiCommand = .incr then .increment (slice t.mem key nkey) delta 0 0
              else .decrement (slice t.mem key nkey) delta 0 0
            if I.present call.callback then
              let a := (s.invoke I call).1
              [.call call, .response
                (if a.status = .success then toString a.result.toNat ++ "\r\n" else "NOT_FOUND\r\n")]
            else notImplementedEvents)

/-- `process_stats`. -/
def processStatsEvents : List LineEvent :=
  if I.present .stat then
    let (key, nkey) := t.statsKey
    let call : Invocation := .stat (slice t.recovered key nkey)
    .region key nkey :: .call call :: (s.invoke I call).1.stats.flatMap statEvents
  else notImplementedEvents

/-- `process_version`. -/
def processVersionEvents : List LineEvent :=
  if t.ntokens ≠ 1 then usageEvents s.asciiCommand
  else if I.present .version then
    .call .version :: (s.invoke I .version).1.versions.flatMap versionEvents
  else notImplementedEvents

/-- `process_flush`. -/
def processFlushEvents : List LineEvent :=
  let flush (timeout : Nat) : List LineEvent :=
    let call : Invocation := .flushObject (timeout % 2 ^ 32)
    [.call call, .response
      (if (s.invoke I call).1.status = .success then "OK\r\n" else "SERVER_ERROR: internal error\r\n")]
  if 2 < t.ntokens then usageEvents s.asciiCommand
  else if I.present .flushObject then
    if t.ntokens = 2 then
      t.number 1 ++
        match strtoull (t.string 1) with
        | (_, _, true) => []
        | (timeout, _, false) => flush timeout
    else flush 0
  else notImplementedEvents

/-- The end of `process_storage_command`, with the data there. -/
def storeEvents (key : Bytes) (flags timeout nbytes : Nat) : List LineEvent :=
  let data := (t.mem.drop (t.end_ + 1)).take (nbytes % 2 ^ 32)
  let call (call : Invocation) : List LineEvent :=
    [.call call, .response (storageReply s.asciiCommand (s.invoke I call).1.status)]
  match s.asciiCommand with
  | .set => call (.set key data (flags % 2 ^ 32) (timeout % 2 ^ 32) 0)
  | .add => call (.add key data (flags % 2 ^ 32) (timeout % 2 ^ 32))
  | .cas =>
    t.number 5 ++
      match strtoull (t.string 5) with
      | (_, _, true) => [.response "CLIENT_ERROR: bad key\r\n"]
      | (cas, _, false) => call (.replace key data (flags % 2 ^ 32) (timeout % 2 ^ 32) cas)
  | .replace => call (.replace key data (flags % 2 ^ 32) (timeout % 2 ^ 32) 0)
  | .append => call (.append key data 0)
  | .prepend => call (.prepend key data 0)
  | _ => [.abort]

/-- `process_storage_command`. -/
def processStorageEvents : List LineEvent :=
  let bad : List LineEvent := [.response "CLIENT_ERROR: bad key\r\n"]
  .token 1 ::
    match t.key 1 with
    | none => bad
    | some (key, nkey) =>
      .region key nkey :: (t.number 2 ++
        match strtoull (t.string 2) with
        | (_, _, true) => bad
        | (flags, _, false) =>
          t.number 3 ++
            match strtoull (t.string 3) with
            | (_, _, true) => bad
            | (timeout, _, false) =>
              t.number 4 ++
                match strtoull (t.string 4) with
                | (_, _, true) => bad
                | (nbytes, _, false) =>
                  if t.lacksData nbytes then []
                  else storeEvents I t s (slice t.mem key nkey) flags timeout nbytes)

/-- `process_set_command` and its variants. -/
def checkedStorageEvents (ntokens : Nat) (callback : Callback) : List LineEvent :=
  if t.ntokens ≠ ntokens then usageEvents s.asciiCommand
  else if I.present callback then processStorageEvents I t s
  else notImplementedEvents

/-- The `switch`. -/
def processCommandEvents : List LineEvent :=
  match s.asciiCommand with
  | .set => checkedStorageEvents I t s 5 .set
  | .add => checkedStorageEvents I t s 5 .add
  | .replace => checkedStorageEvents I t s 5 .replace
  | .cas => checkedStorageEvents I t s 6 .replace
  | .append => checkedStorageEvents I t s 5 .append
  | .prepend => checkedStorageEvents I t s 5 .prepend
  | .delete => processDeleteEvents I t s
  | .incr | .decr => processArithmeticEvents I t s
  | .stats => if s.mute then usageEvents s.asciiCommand else processStatsEvents I t s
  | .flushAll => processFlushEvents I t s
  | .version => if s.mute then usageEvents s.asciiCommand else processVersionEvents I t s
  | .quit =>
    if t.ntokens ≠ 1 ∨ s.mute then usageEvents s.asciiCommand
    else if I.present .quit then [.call .quit]
    else []
  | .verbosity => if t.ntokens ≠ 2 then usageEvents s.asciiCommand else [.response "OK\r\n"]
  | .unknown => usageEvents s.asciiCommand
  | .get | .gets => [.abort]

end Commands

/-- The line at the beginning of the memory as the `switch` is given it. -/
def tokenizeLine (mem : Bytes) (end_ length : Nat) : Tokenized :=
  let line := mem.take end_
  ⟨(asciiTokenizeCommand line).2 ++ mem.drop (end_ + 1), tokenVector line,
    (dropNoreply (asciiTokenizeCommand line).1).length, end_, length⟩

/-- One round of the loop. Without tokens, what is read before the vector is compared with `noreply`. -/
def roundEvents (I : Interface σ) (mem : Bytes) (end_ length : Nat) (s : Serving σ) : List LineEvent :=
  let command := asciiToCmd (mem.take length)
  let s := { s with asciiCommand := command }
  if command = .get ∨ command = .gets then
    if I.present .get then processGetsEvents I mem end_ s
    else [.response "SERVER_ERROR: Command not implemented\n"]
  else
    let tokens := (asciiTokenizeCommand (mem.take end_)).1
    if tokens = [] then [.token (-1)]
    else
      (if tokens.length < maxTokens then
          [.token ((tokens.length : Int) - 1), .mute (hasNoreply tokens)]
        else []) ++
        processCommandEvents I (tokenizeLine mem end_ length) (setMute tokens s)

/-- The state of the connection over the events. -/
def LineEvent.apply (I : Interface σ) (s : Serving σ) : LineEvent → Serving σ
  | .call invocation => (s.invoke I invocation).2
  | .mute on => { s with mute := on }
  | .raw text | .spool text => s.spool text
  | .token _ | .region _ _ | .abort => s

/-! ## The queue -/

/-- `ascii_raw_response_handler` on the output side: whether its assertion holds, if it is reached. -/
def Output.asciiRawResponseHandler (text : Bytes) (results : List SendResult) (out : Output) :
    Bool × Output :=
  match drainOutput results out with
  | (false, out) => (true, out)
  | (true, out) => (out.chunks ≠ [], out.spoolOutput text)

/-- The output side over the events, and whether every assertion holds. Each response drains with its
own results of `send`. -/
def emit : List LineEvent → List (List SendResult) → Output → Bool × Output
  | [], _, out => (true, out)
  | .raw text :: events, drains, out =>
    let (held, out) := out.asciiRawResponseHandler text (drains.headD [])
    let (rest, out) := emit events drains.tail out
    (held && rest, out)
  | .spool data :: events, drains, out => emit events drains (out.spoolOutput data)
  | .mute on :: events, drains, out => emit events drains { out with mute := on }
  | .call _ :: events, drains, out | .token _ :: events, drains, out
  | .region _ _ :: events, drains, out | .abort :: events, drains, out => emit events drains out

/-! ## Connections -/

/-- A complete line in the input: the line, without its line feed, the memory behind it, the number of
bytes available from its first byte on, and the results of `send` for each response. -/
structure LineInput where
  line : Bytes
  after : Bytes
  length : Nat
  drains : List (List SendResult)
  no_feed : (10 : UInt8) ∉ line
  complete : line.length + 1 ≤ length

/-- The memory from the first byte of the line on. -/
def LineInput.mem (input : LineInput) : Bytes := input.line ++ 10 :: input.after

/-- A connection that speaks the text protocol. -/
structure TextConn (σ : Type) where
  serving : Serving σ
  out : Output := {}

/-- A line is processed, or `memcached_protocol_client_work` drains the output. -/
inductive TextAction where
  | line (input : LineInput)
  | drain (results : List SendResult)

/-- What happens in the round of a line. -/
def TextConn.events (I : Interface σ) (c : TextConn σ) (input : LineInput) : List LineEvent :=
  roundEvents I input.mem input.line.length input.length c.serving

/-- The responses of a line. -/
def TextConn.respond (I : Interface σ) (c : TextConn σ) (input : LineInput) : Bool × Output :=
  emit (c.events I input) input.drains { c.out with mute := c.serving.mute }

def TextConn.step (I : Interface σ) (c : TextConn σ) : TextAction → TextConn σ
  | .line input =>
    ⟨(c.events I input).foldl (LineEvent.apply I)
        { c.serving with asciiCommand := asciiToCmd (input.mem.take input.length) },
      (c.respond I input).2⟩
  | .drain results => { c with out := (Output.drainOutput results c.out).2 }

end LM
