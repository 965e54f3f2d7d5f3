import LibMemcached.Impl.BinaryHandler

/-!
# Text commands in the server library

`ascii_handler.c`, without the verbose output; assertions are compiled out. A line is given by the
memory from its first byte on: most of the parser works on zero-terminated tokens and stays in the
line, but the scan for the keys of `get` and the argument of `stats` go on behind it. Memory after
the end of the buffer reads as zero.
-/

namespace LM

variable {σ : Type}

/-- The zero-terminated string at the beginning of the memory. -/
def cString (mem : Bytes) : Bytes := mem.takeWhile (· != 0)

/-- `parse_ascii_key`: how many blanks it skips, and the length of the key, zero if it is illegal. -/
def parseAsciiKey (mem : Bytes) : Nat × Nat :=
  let blanks := (mem.takeWhile isSpace).length
  let word := (mem.drop blanks).takeWhile fun b => b != 0 && !isSpace b && !isCntrl b
  let c := mem.getD (blanks + word.length) 0
  let len := word.length % 2 ^ 16
  (blanks, if len = 0 ∨ 240 < len ∨ (c ≠ 0 ∧ c ≠ 13 ∧ isCntrl c) then 0 else len)

/-- The second loop of `parse_ascii_key`: the rest of the memory and the counter. -/
def scanKey : Bytes → UInt16 → Bytes × UInt16
  | [], len => ([], len)
  | b :: c, len => if b != 0 && !isSpace b && !isCntrl b then scanKey c (len + 1) else (b :: c, len)

/-- `parse_ascii_key` with its counter: `*start` as it leaves it, and what it returns. -/
def parseAsciiKeyCounter (start : Bytes) : Bytes × UInt16 :=
  let start := start.dropWhile isSpace
  let (c, len) := scanKey start 0
  let c := c.headD 0
  (start, if len = 0 ∨ 240 < len ∨ (c ≠ 0 ∧ c ≠ 13 ∧ isCntrl c) then 0 else len)

/-! ## Responses -/

/-- `ascii_raw_response_handler`. -/
def asciiRawResponseHandler (text : String) (s : Serving σ) : Serving σ := s.spool (ascii text)

/-- The texts of `send_command_usage`. -/
def AsciiCmd.usage : AsciiCmd → String
  | get => "CLIENT_ERROR: Syntax error: get <key>*\r\n"
  | gets => "CLIENT_ERROR: Syntax error: gets <key>*\r\n"
  | set => "CLIENT_ERROR: Syntax error: set <key> <flags> <exptime> <bytes> [noreply]\r\n"
  | add => "CLIENT_ERROR: Syntax error: add <key> <flags> <exptime> <bytes> [noreply]\r\n"
  | replace => "CLIENT_ERROR: Syntax error: replace <key> <flags> <exptime> <bytes> [noreply]\r\n"
  | cas => "CLIENT_ERROR: Syntax error: cas <key> <flags> <exptime> <bytes> <casid> [noreply]\r\n"
  | append => "CLIENT_ERROR: Syntax error: append <key> <flags> <exptime> <bytes> [noreply]\r\n"
  | prepend => "CLIENT_ERROR: Syntax error: prepend <key> <flags> <exptime> <bytes> [noreply]\r\n"
  | delete => "CLIENT_ERROR: Syntax error: delete_object <key> [noreply]\r\n"
  | incr => "CLIENT_ERROR: Syntax error: incr <key> <value> [noreply]\r\n"
  | decr => "CLIENT_ERROR: Syntax error: decr <key> <value> [noreply]\r\n"
  | stats => "CLIENT_ERROR: Syntax error: stats [key]\r\n"
  | flushAll => "CLIENT_ERROR: Syntax error: flush_all [timeout] [noreply]\r\n"
  | version => "CLIENT_ERROR: Syntax error: version\r\n"
  | quit => "CLIENT_ERROR: Syntax error: quit\r\n"
  | verbosity => "CLIENT_ERROR: Syntax error: verbosity <num>\r\n"
  | unknown => "CLIENT_ERROR: Unknown command\r\n"

/-- `send_command_usage`. It also takes back `noreply`. -/
def sendCommandUsage (s : Serving σ) : Serving σ :=
  asciiRawResponseHandler s.asciiCommand.usage { s with mute := false }

/-- A key that may stand in a `VALUE` line. -/
def graphicKey (key : Bytes) : Bool := key.all fun b => b != 0 && !isSpace b && !isCntrl b

/-- The line of `ascii_get_response_handler`, in its buffer of 300 bytes. -/
def valueLine (command : AsciiCmd) (hit : Hit) : Bytes :=
  let fields := spaced hit.flags.toNat ++ spaced hit.body.length ++
    (if command = .gets then spaced hit.cas.toNat else []) ++ ascii "\r\n"
  ascii "VALUE " ++ hit.key ++ fields.take (299 - (6 + hit.key.length))

/-- `ascii_get_response_handler`. A key that is not graphic is refused. -/
def asciiGetResponseHandler (hit : Hit) (s : Serving σ) : Serving σ :=
  if graphicKey hit.key then
    ((s.spool (valueLine s.asciiCommand hit)).spool hit.body).spool (ascii "\r\n")
  else s

/-- `ascii_stat_response_handler`. -/
def asciiStatResponseHandler (entry : StatEntry) (s : Serving σ) : Serving σ :=
  match entry.key with
  | some key =>
    let s := (asciiRawResponseHandler "STAT " s).spool key
    let s := (asciiRawResponseHandler " " s).spool entry.body
    asciiRawResponseHandler "\r\n" s
  | none => asciiRawResponseHandler "END\r\n" s

/-- `ascii_version_response_handler`. -/
def asciiVersionResponseHandler (text : Bytes) (s : Serving σ) : Serving σ :=
  asciiRawResponseHandler "\r\n" ((asciiRawResponseHandler "VERSION " s).spool text)

/-- A callback that was given a response handler, with what it handed to it. -/
def Serving.invokeWith {α : Type} (I : Interface σ) (call : Invocation) (handed : Answer → List α)
    (handler : α → Serving σ → Serving σ) (s : Serving σ) : Serving σ :=
  (handed (s.invoke I call).1).foldl (fun s a => handler a s) (s.invoke I call).2

/-! ## Lines -/

/-- The commands and the number of bytes that are compared. -/
def asciiCommands : List (String × Nat × AsciiCmd) :=
  [("get", 3, .get), ("gets", 4, .gets), ("set", 3, .set), ("add", 3, .add),
    ("replace", 7, .replace), ("cas", 3, .cas), ("append", 6, .append), ("prepend", 7, .prepend),
    ("delete_object", 6, .delete), ("incr", 4, .incr), ("decr", 4, .decr), ("stats", 5, .stats),
    ("flush_all", 9, .flushAll), ("version", 7, .version), ("quit", 4, .quit),
    ("verbosity", 9, .verbosity)]

/-- `ascii_to_cmd`. -/
def asciiToCmd (input : Bytes) : AsciiCmd :=
  match asciiCommands.find? fun (cmd, len, _) =>
      input.take len == (ascii cmd).take len &&
        (input.length == len || isSpace (input.getD len 0)) with
  | some (_, _, cc) => cc
  | none => .unknown

/-- The loop of `ascii_process_gets`, with the key at an offset of the memory: how many keys there
were. Every round goes on by at least one byte, so there are at most `end_` of them. -/
def getsLoop (I : Interface σ) (mem : Bytes) (end_ : Nat) :
    Nat → Nat → Nat → Serving σ → Nat × Serving σ
  | 0, _, numKeys, s => (numKeys, s)
  | fuel + 1, key, numKeys, s =>
    if key < end_ then
      let (blanks, nkey) := parseAsciiKey (mem.drop key)
      if nkey = 0 then (numKeys, s)
      else
        let key := key + blanks
        let s := s.invokeWith I (.get (slice mem key nkey)) (·.hits) asciiGetResponseHandler
        getsLoop I mem end_ fuel (key + nkey) (numKeys + 1) s
    else (numKeys, s)

/-- `ascii_process_gets`. -/
def asciiProcessGets (I : Interface σ) (mem : Bytes) (end_ : Nat) (s : Serving σ) : Serving σ :=
  let (numKeys, s) := getsLoop I mem end_ end_ (if s.asciiCommand = .gets then 5 else 4) 0 s
  if numKeys = 0 then sendCommandUsage s else s.spool (ascii "END\r\n")

/-- The loop of `ascii_tokenize_command` on the rest of a line, up to its line feed: the words, at most
`size` of them, and the rest of the line with a zero after each word, which may replace the line feed.
Each round takes at least one byte. -/
def tokenizeLoop : Nat → Nat → Bytes → List Bytes × Bytes
  | 0, _, rest => ([], rest ++ [10])
  | _ + 1, 0, rest => ([], rest ++ [10])
  | fuel + 1, size + 1, rest =>
    let blanks := rest.takeWhile isSpace
    let rest := rest.dropWhile isSpace
    if rest = [] then ([], blanks ++ [10])
    else
      let word := rest.takeWhile (!isSpace ·)
      match rest.dropWhile (!isSpace ·) with
      | [] => ([word], blanks ++ word ++ [0])
      | _ :: rest =>
        let tokenized := tokenizeLoop fuel size rest
        (word :: tokenized.1, blanks ++ word ++ 0 :: tokenized.2)

/-- The most tokens of a line. -/
def maxTokens : Nat := 10

/-- `ascii_tokenize_command`: the tokens and the line as it is left, with the byte at its end. A token
is a zero-terminated string. -/
def asciiTokenizeCommand (line : Bytes) : List Bytes × Bytes :=
  let tokenized := tokenizeLoop (line.length + 1) maxTokens line
  (tokenized.1.map cString, tokenized.2)

/-- `recover_tokenize_command` on a line with its line feed. -/
def recoverTokenizeCommand (line : Bytes) : Bytes :=
  line.dropLast.map (fun b => if b = 0 then 32 else b) ++ [10]

/-! ## Commands -/

/-- The callback is missing. -/
def notImplemented (s : Serving σ) : Serving σ :=
  asciiRawResponseHandler "SERVER_ERROR: callback not implemented\r\n" s

/-- The key of a token: `none` if it is illegal. -/
def tokenKey (token : Bytes) : Option Bytes :=
  let (blanks, nkey) := parseAsciiKey token
  if nkey = 0 then none else some (slice token blanks nkey)

/-- `process_delete`. -/
def processDelete (I : Interface σ) (tokens : List Bytes) (s : Serving σ) : Serving σ :=
  match tokens with
  | [_, key] =>
    match tokenKey key with
    | none => sendCommandUsage s
    | some key =>
      if I.present .deleteObject then
        let (a, s) := s.invoke I (.deleteObject key 0)
        match a.status with
        | .success => asciiRawResponseHandler "DELETED\r\n" s
        | .keyEnoent => asciiRawResponseHandler "NOT_FOUND\r\n" s
        | rval =>
          asciiRawResponseHandler
            ("SERVER_ERROR: delete_object failed " ++ toString rval.code ++ "\r\n") s
      else notImplemented s
  | _ => sendCommandUsage s

/-- `process_arithmetic`. A value out of range is not answered. -/
def processArithmetic (I : Interface σ) (tokens : List Bytes) (s : Serving σ) : Serving σ :=
  match tokens with
  | [_, key, delta] =>
    match tokenKey key with
    | none => sendCommandUsage s
    | some key =>
      match strtoull delta with
      | (_, _, true) => s
      | (delta, _, false) =>
        let call : Invocation :=
          if s.asciiCommand = .incr then .increment key delta 0 0 else .decrement key delta 0 0
        if I.present call.callback then
          let (a, s) := s.invoke I call
          if a.status = .success then asciiRawResponseHandler (toString a.result.toNat ++ "\r\n") s
          else asciiRawResponseHandler "NOT_FOUND\r\n" s
        else notImplemented s
  | _ => sendCommandUsage s

/-- `process_stats`, for a line with its line feed at `end_`. -/
def processStats (I : Interface σ) (mem : Bytes) (end_ : Nat) (s : Serving σ) : Serving σ :=
  if I.present .stat then
    let key := 6 + ((mem.drop 6).takeWhile isSpace).length
    let nkey := (end_ + 2 ^ 32 - key) % 2 ^ 16
    s.invokeWith I (.stat (slice mem key nkey)) (·.stats) asciiStatResponseHandler
  else notImplemented s

/-- `process_version`. -/
def processVersion (I : Interface σ) (tokens : List Bytes) (s : Serving σ) : Serving σ :=
  if tokens.length ≠ 1 then sendCommandUsage s
  else if I.present .version then
    s.invokeWith I .version (·.versions) asciiVersionResponseHandler
  else notImplemented s

/-- `process_flush`. A timeout out of range is not answered. -/
def processFlush (I : Interface σ) (tokens : List Bytes) (s : Serving σ) : Serving σ :=
  let flush (timeout : Nat) : Serving σ :=
    let (a, s) := s.invoke I (.flushObject (timeout % 2 ^ 32))
    if a.status = .success then asciiRawResponseHandler "OK\r\n" s
    else asciiRawResponseHandler "SERVER_ERROR: internal error\r\n" s
  if 2 < tokens.length then sendCommandUsage s
  else if I.present .flushObject then
    match tokens with
    | [_, timeout] =>
      match strtoull timeout with
      | (_, _, true) => s
      | (timeout, _, false) => flush timeout
    | _ => flush 0
  else notImplemented s

/-- What a command does to the input: the connection ends, the storage command is complete and takes
bytes after the line, more data is needed, or a pointer is lost. -/
inductive Progress where
  | ended | done (taken : Nat) | more | lost
  deriving DecidableEq

/-- The callback of a storage command. `none` if the `cas` value is out of range. -/
def storageCall (command : AsciiCmd) (tokens : List Bytes) (key data : Bytes)
    (flags timeout : Nat) : Option Invocation :=
  match command with
  | .set => some (.set key data flags timeout 0)
  | .add => some (.add key data flags timeout)
  | .cas =>
    match strtoull (tokens.getD 5 []) with
    | (_, _, true) => none
    | (cas, _, false) => some (.replace key data flags timeout cas)
  | .replace => some (.replace key data flags timeout 0)
  | .append => some (.append key data 0)
  | .prepend => some (.prepend key data 0)
  | _ => none

/-- The reply to a storage command. -/
def storageReply (command : AsciiCmd) (rval : Status) : String :=
  if rval = .success then "STORED\r\n"
  else if command = .cas then
    if rval = .keyEexists then "EXISTS\r\n"
    else if rval = .keyEnoent then "NOT_FOUND\r\n"
    else "NOT_STORED\r\n"
  else "NOT_STORED\r\n"

/-- `process_storage_command`: `after` is the memory after the line, `end_` the offset of the line
feed and `length` the number of bytes available from the first byte of the line on. -/
def processStorageCommand (I : Interface σ) (tokens : List Bytes) (after : Bytes)
    (end_ length : Nat) (s : Serving σ) : Progress × Serving σ :=
  let bad : Progress × Serving σ := (.ended, asciiRawResponseHandler "CLIENT_ERROR: bad key\r\n" s)
  match tokenKey (tokens.getD 1 []), strtoull (tokens.getD 2 []), strtoull (tokens.getD 3 []),
      strtoull (tokens.getD 4 []) with
  | some key, (flags, _, false), (timeout, _, false), (nbytes, _, false) =>
    let need := nbytes + end_ + 3
    -- `need` has 64 bits and is compared as a signed number: the command would count as complete.
    if 2 ^ 63 ≤ need then (.lost, s)
    else if length < need then (.more, s)
    else
      let data := after.take (nbytes % 2 ^ 32)
      match storageCall s.asciiCommand tokens key data (flags % 2 ^ 32) (timeout % 2 ^ 32) with
      | none => bad
      | some call =>
        let (a, s) := s.invoke I call
        (.done (nbytes + 2), asciiRawResponseHandler (storageReply s.asciiCommand a.status) s)
  | _, _, _, _ => bad

/-- `process_set_command` and its variants: the number of tokens and the callback. -/
def checkedStorage (I : Interface σ) (ntokens : Nat) (callback : Callback) (tokens : List Bytes)
    (after : Bytes) (end_ length : Nat) (s : Serving σ) : Progress × Serving σ :=
  if tokens.length ≠ ntokens then (.done 0, sendCommandUsage s)
  else if I.present callback then processStorageCommand I tokens after end_ length s
  else (.done 0, notImplemented s)

def processCasCommand (I : Interface σ) := checkedStorage I 6 .replace

def processSetCommand (I : Interface σ) := checkedStorage I 5 .set

def processAddCommand (I : Interface σ) := checkedStorage I 5 .add

def processReplaceCommand (I : Interface σ) := checkedStorage I 5 .replace

def processAppendCommand (I : Interface σ) := checkedStorage I 5 .append

def processPrependCommand (I : Interface σ) := checkedStorage I 5 .prepend

/-- Whether `noreply` is the last token. With ten tokens it is not looked at. -/
def hasNoreply (tokens : List Bytes) : Bool :=
  tokens.length < maxTokens && tokens.getLast? == some (ascii "noreply")

/-- The tokens without `noreply`. -/
def dropNoreply (tokens : List Bytes) : List Bytes :=
  if hasNoreply tokens then tokens.dropLast else tokens

/-- The new value of `mute`. With ten tokens it stays as it was. -/
def setMute (tokens : List Bytes) (s : Serving σ) : Serving σ :=
  if tokens.length < maxTokens then { s with mute := hasNoreply tokens } else s

/-- The `switch` of `memcached_ascii_protocol_process_data`, after the commands that read. `line` is
the line with its line feed. -/
def processCommand (I : Interface σ) (tokens : List Bytes) (line after : Bytes)
    (length : Nat) (s : Serving σ) : Progress × Serving σ :=
  let end_ := line.length - 1
  let stays (s : Serving σ) : Progress × Serving σ := (.done 0, s)
  match s.asciiCommand with
  | .set => processSetCommand I tokens after end_ length s
  | .add => processAddCommand I tokens after end_ length s
  | .replace => processReplaceCommand I tokens after end_ length s
  | .cas => processCasCommand I tokens after end_ length s
  | .append => processAppendCommand I tokens after end_ length s
  | .prepend => processPrependCommand I tokens after end_ length s
  | .delete => stays (processDelete I tokens s)
  | .incr | .decr => stays (processArithmetic I tokens s)
  | .stats =>
    stays (if s.mute then sendCommandUsage s
      else processStats I (recoverTokenizeCommand line ++ after) end_ s)
  | .flushAll => stays (processFlush I tokens s)
  | .version => stays (if s.mute then sendCommandUsage s else processVersion I tokens s)
  | .quit =>
    if tokens.length ≠ 1 ∨ s.mute then stays (sendCommandUsage s)
    else (.ended, if I.present .quit then (s.invoke I .quit).2 else s)
  | .verbosity =>
    stays (if tokens.length ≠ 2 then sendCommandUsage s else asciiRawResponseHandler "OK\r\n" s)
  | _ => stays (sendCommandUsage s)

/-- One round of the loop: a line of `end_` bytes and a line feed at the beginning of the input, of
which `length` bytes are available. Also the line as it is left in the buffer. -/
def asciiRound (I : Interface σ) (mem : Bytes) (end_ length : Nat) (s : Serving σ) :
    Progress × Bytes × Serving σ :=
  let command := asciiToCmd (mem.take length)
  let s := { s with asciiCommand := command }
  if command = .get ∨ command = .gets then
    (.done 0, mem.take (end_ + 1),
      if I.present .get then asciiProcessGets I mem end_ s
      else asciiRawResponseHandler "SERVER_ERROR: Command not implemented\n" s)
  else
    let (tokens, line) := asciiTokenizeCommand (mem.take end_)
    -- A line without tokens reads the element before the first one.
    if tokens = [] then (.lost, line, s)
    else
      let s := setMute tokens s
      let (progress, s') :=
        processCommand I (dropNoreply tokens) line (mem.drop (end_ + 1)) length s
      let recovered := progress = .more ∨ (command = .stats ∧ !s.mute)
      (progress, if recovered then recoverTokenizeCommand line else line, s')

/-- The loop of `memcached_ascii_protocol_process_data`: `front` is the part of the buffer that was
consumed, `mem` the memory from there on, of which `length` bytes are input. More data needed for a
storage command leaves the pointer to the rest at the beginning of the buffer. -/
def asciiLoop (I : Interface σ) : Nat → Bytes → Bytes → Nat → Serving σ → Worked σ
  | 0, front, mem, length, s => ⟨.read, front ++ mem, length, some front.length, s⟩
  | fuel + 1, front, mem, length, s =>
    match (mem.take length).idxOf? 10 with
    | none => ⟨.read, front ++ mem, length, some front.length, s⟩
    | some end_ =>
      let (progress, line, s) := asciiRound I mem end_ length s
      let buffer := front ++ line ++ mem.drop (end_ + 1)
      match progress with
      | .ended => ⟨.error, buffer, length, some 0, s⟩
      | .lost => ⟨.undefined, buffer, length, some 0, s⟩
      | .more => ⟨.read, buffer, length, some 0, s⟩
      | .done taken =>
        let used := end_ + 1 + taken
        let front := front ++ line ++ slice mem (end_ + 1) taken
        if length - used = 0 then ⟨.read, buffer, 0, some front.length, s⟩
        else asciiLoop I fuel front (mem.drop used) (length - used) s

/-- `memcached_ascii_protocol_process_data`. -/
def asciiProcessData (I : Interface σ) (buffer : Bytes) (length : Nat) (s : Serving σ) : Worked σ :=
  asciiLoop I (length + 1) [] buffer length s

end LM
