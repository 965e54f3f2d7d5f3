import LibMemcached.Impl.Hosts
import LibMemcached.Impl.Response

/-!
# Configuration strings

`csl/scanner.l` and `csl/parser.yy`. The scanner takes the rule that matches most of the text, and the first
one of several that match as much (`Kind.length`, `order`). The parser takes back the mark of a server as soon
as it has read one, so before the token behind the blank is scanned: the scanner does so at the blank. What
statements other than those with a server do to a client is an argument, `apply`.
-/

namespace LM.Csl

/-- The words of the language. -/
inductive Word where
  | server | socket | binaryProtocol | bufferRequests | configureFile | connectTimeout | distribution
  | hashWithNamespace | hash | ioBytesWatermark | ioKeyPrefetch | ioMsgWatermark | noreply | numberOfReplicas
  | pollTimeout | randomizeReplicaRead | rcvTimeout | removeFailedServers | retryTimeout | sndTimeout
  | socketRecvSize | socketSendSize | sortHosts | supportCas | tcpKeepalive | tcpKeepidle | tcpNodelay | useUdp
  | userData | verifyKey | poolMin | poolMax | namespace_ | fetchVersion | include_ | reset | debug | servers
  | end_ | error | true_ | false_ | consistent | modula | random | md5 | crc | fnv1_64 | fnv1a_64 | fnv1_32
  | fnv1a_32 | hsieh | murmur | jenkins
  deriving DecidableEq

open Word

/-- The options, and the keywords in front of the rule for unknown options. -/
def options : List (Word × String) :=
  [(server, "--SERVER="), (socket, "--SOCKET="), (binaryProtocol, "--BINARY-PROTOCOL"),
    (bufferRequests, "--BUFFER-REQUESTS"), (configureFile, "--CONFIGURE-FILE="),
    (connectTimeout, "--CONNECT-TIMEOUT="), (distribution, "--DISTRIBUTION="),
    (hashWithNamespace, "--HASH-WITH-NAMESPACE"), (hash, "--HASH="), (ioBytesWatermark, "--IO-BYTES-WATERMARK="),
    (ioKeyPrefetch, "--IO-KEY-PREFETCH="), (ioMsgWatermark, "--IO-MSG-WATERMARK="), (noreply, "--NOREPLY"),
    (numberOfReplicas, "--NUMBER-OF-REPLICAS="), (pollTimeout, "--POLL-TIMEOUT="),
    (randomizeReplicaRead, "--RANDOMIZE-REPLICA-READ"), (rcvTimeout, "--RCV-TIMEOUT="),
    (removeFailedServers, "--REMOVE-FAILED-SERVERS="), (retryTimeout, "--RETRY-TIMEOUT="),
    (sndTimeout, "--SND-TIMEOUT="), (socketRecvSize, "--SOCKET-RECV-SIZE="), (socketSendSize, "--SOCKET-SEND-SIZE="),
    (sortHosts, "--SORT-HOSTS"), (supportCas, "--SUPPORT-CAS"), (tcpKeepalive, "--TCP-KEEPALIVE"),
    (tcpKeepidle, "--TCP-KEEPIDLE"), (tcpNodelay, "--TCP-NODELAY"), (useUdp, "--USE-UDP"), (userData, "--USER-DATA"),
    (verifyKey, "--VERIFY-KEY"), (poolMin, "--POOL-MIN="), (poolMax, "--POOL-MAX="), (namespace_, "--NAMESPACE="),
    (fetchVersion, "--FETCH-VERSION"), (include_, "INCLUDE"), (reset, "RESET"), (debug, "DEBUG"),
    (servers, "SERVERS"), (end_, "END"), (error, "CSL_ERROR"), (true_, "TRUE"), (false_, "FALSE")]

/-- The keywords behind that rule. -/
def methods : List (Word × String) :=
  [(consistent, "CONSISTENT"), (modula, "MODULA"), (random, "RANDOM"), (md5, "MD5"), (crc, "CRC"),
    (fnv1_64, "FNV1_64"), (fnv1a_64, "FNV1A_64"), (fnv1_32, "FNV1_32"), (fnv1a_32, "FNV1A_32"), (hsieh, "HSIEH"),
    (murmur, "MURMUR"), (jenkins, "JENKINS")]

def isAlpha (b : UInt8) : Bool := (65 ≤ b && b ≤ 90) || (97 ≤ b && b ≤ 122)

def isAlnum (b : UInt8) : Bool := isAlpha b || isDigit b

/-- `["."[:alnum:]_-]`: a quotation mark stands for itself. -/
def isNameByte (b : UInt8) : Bool := isAlnum b || b == 34 || b == 46 || b == 95 || b == 45

/-- The scanner is case-insensitive. -/
def lower (bytes : Bytes) : Bytes := bytes.map fun b => if 65 ≤ b && b ≤ 90 then b + 32 else b

/-- The rules. -/
inductive Kind where
  | char | number | port | weight | blank | comment | word (w : Word) (text : String) | unknownOption
  | ipAddress | hostname | quotedString | unknown
  deriving DecidableEq

/-- The rules in their order. -/
def order : List Kind :=
  [.char, .number, .port, .weight, .blank, .comment] ++ options.map (fun p => .word p.1 p.2) ++
    [.unknownOption] ++ methods.map (fun p => .word p.1 p.2) ++ [.ipAddress, .hostname, .quotedString, .unknown]

/-- How many of the first `most` bytes have `p`, without a gap. -/
def upTo (most : Nat) (p : UInt8 → Bool) (text : Bytes) : Nat := ((text.take most).takeWhile p).length

/-- A mark and one to five digits. -/
def marked (mark text : Bytes) : Nat :=
  let n := upTo 5 isDigit (text.drop mark.length)
  if mark.isPrefixOf text ∧ n ≠ 0 then mark.length + n else 0

/-- One to three digits, `k` times with a dot behind them and once without. -/
def dotted : Nat → Bytes → Nat
  | 0, text => upTo 3 isDigit text
  | k + 1, text =>
    let n := upTo 3 isDigit text
    let m := dotted k (text.drop (n + 1))
    if n ≠ 0 ∧ text[n]? = some 46 ∧ m ≠ 0 then n + 1 + m else 0

/-- The rest of a quoted string, up to the mark that closes it. -/
def quoted : Bytes → Nat
  | 34 :: _ => 1
  | 92 :: b :: rest => if b = 10 ∨ quoted rest = 0 then 0 else quoted rest + 2
  | b :: rest => if b = 92 ∨ quoted rest = 0 then 0 else quoted rest + 1
  | [] => 0

/-- How much of the text a rule matches at most; `bol` says that a line begins. -/
def Kind.length (bol : Bool) (text : Bytes) : Kind → Nat
  | .char => upTo 1 [61, 44, 32].contains text
  | .number => (text.takeWhile isDigit).length
  | .port => marked [58] text
  | .weight => marked [47, 63] text
  | .blank => upTo 1 [9, 13, 10].contains text
  | .comment =>
    let line := text.takeWhile (· != 10)
    if bol ∧ text.head? = some 35 ∧ line ≠ text then line.length else 0
  | .word _ literal => if lower (text.take (ascii literal).length) = lower (ascii literal) then (ascii literal).length else 0
  | .unknownOption => if [45, 45].isPrefixOf text then 2 + ((text.drop 2).takeWhile isAlnum).length else 0
  | .ipAddress => dotted 3 text
  | .hostname =>
    let n := ((text.takeWhile isNameByte).reverse.dropWhile (!isAlnum ·)).length
    if text.head?.any isAlnum ∧ 3 ≤ n then n else 0
  | .quotedString =>
    let l := upTo 1 [76, 108].contains text
    if text[l]? = some 34 ∧ quoted (text.drop (l + 1)) ≠ 0 then l + 1 + quoted (text.drop (l + 1)) else 0
  | .unknown => upTo 1 (· != 10) text

inductive Token where
  | char (b : UInt8) | number (digits : Bytes) | port (n : Nat) | weight (n : Nat) | comment | word (w : Word)
  | unknownOption | ipAddress (text : Bytes) | hostname (text : Bytes) | string (text : Bytes)
  | quotedString (text : Bytes) | unknown
  deriving DecidableEq

/-- What a rule returns for the text it has matched; blanks are skipped. -/
def Kind.token (isServer : Bool) (yytext : Bytes) : Kind → Option Token
  | .char => some (.char (yytext.headD 0))
  | .number => some (.number yytext)
  | .port => some (.port (digitsValue (yytext.drop 1)))
  | .weight => some (.weight (digitsValue (yytext.drop 2)))
  | .blank => none
  | .comment => some .comment
  | .word w _ => some (.word w)
  | .unknownOption => some .unknownOption
  | .ipAddress => some (.ipAddress yytext)
  | .hostname => some (if isServer then .hostname yytext else .string yytext)
  | .quotedString => some (.quotedString (((yytext.dropWhile (· != 34)).drop 1).dropLast))
  | .unknown => some .unknown

/-- Whether the next word names a server. -/
def Token.isServer (before : Bool) : Token → Bool
  | .word .server => true
  | .char 32 => false
  | _ => before

/-- The tokens of a text. Some rule matches every byte. -/
def scan (bol isServer : Bool) (text : Bytes) : List Token :=
  if _ : text = [] then []
  else
    let kind := (order.argmax fun kind => kind.length bol text).getD .unknown
    let yyleng := max 1 (kind.length bol text)
    let yytext := text.take yyleng
    match kind.token isServer yytext with
    | none => scan (yytext.getLast? == some 10) isServer (text.drop yyleng)
    | some token => token :: scan (yytext.getLast? == some 10) (token.isServer isServer) (text.drop yyleng)
termination_by text.length
decreasing_by
  all_goals
    have hpos := List.length_pos_iff.mpr ‹¬text = []›
    rw [List.length_drop]
    omega

/-! ## The grammar -/

inductive Statement where
  | server (hostname : Bytes) (port weight : Nat)
  | setting (word : Word) (operands : List Token)
  | comment | end_ | error
  deriving DecidableEq

def optionalPort : List Token → Nat × List Token
  | .port n :: rest => (n, rest)
  | rest => (defaultPort.toNat, rest)

def optionalWeight : List Token → Nat × List Token
  | .weight n :: rest => (n, rest)
  | rest => (1, rest)

def Token.isString : Token → Bool
  | .string _ | .quotedString _ => true
  | _ => false

def Token.isHash : Token → Bool
  | .word w => [md5, crc, fnv1_64, fnv1a_64, fnv1_32, fnv1a_32, hsieh, murmur, jenkins].contains w
  | _ => false

def Token.isNumber : Token → Bool
  | .number _ => true
  | _ => false

/-- What has to follow a word that begins a statement. -/
def Word.operand : Word → Option (Option (Token → Bool))
  | socket | configureFile | namespace_ => some (some Token.isString)
  | poolMin | poolMax | removeFailedServers | connectTimeout | ioMsgWatermark | ioBytesWatermark | ioKeyPrefetch
  | numberOfReplicas | pollTimeout | rcvTimeout | retryTimeout | sndTimeout | socketRecvSize | socketSendSize =>
    some (some Token.isNumber)
  | hash => some (some Token.isHash)
  | distribution => some (some fun t => [.word consistent, .word modula, .word random].contains t)
  | binaryProtocol | bufferRequests | hashWithNamespace | noreply | randomizeReplicaRead | sortHosts | supportCas
  | tcpNodelay | tcpKeepalive | tcpKeepidle | useUdp | verifyKey | fetchVersion | userData | reset | debug =>
    some none
  | _ => none

/-- A statement and the tokens behind it. -/
def statement : List Token → Option (Statement × List Token)
  | .word .server :: .hostname name :: rest | .word .server :: .ipAddress name :: rest =>
    let (port, rest) := optionalPort rest
    let (weight, rest) := optionalWeight rest
    some (.server name port weight, rest)
  | .comment :: rest => some (.comment, rest)
  | .word .end_ :: rest => some (.end_, rest)
  | .word .error :: rest => some (.error, rest)
  | .word .include_ :: .char 32 :: name :: rest =>
    if name.isString then some (.setting include_ [name], rest) else none
  | .word w :: rest =>
    match w.operand, rest with
    | some none, rest => some (.setting w [], rest)
    | some (some ok), t :: rest =>
      if !ok t then none
      else
        match w, rest with
        | socket, .weight n :: rest => some (.setting w [t, .weight n], rest)
        | distribution, .char 44 :: h :: rest => if h.isHash then some (.setting w [t, h], rest) else none
        | _, rest => some (.setting w [t], rest)
    | _, _ => none
  | _ => none

/-- The statements that are executed, and whether the text is accepted. -/
def parse : Nat → List Token → List Statement × Bool
  | 0, _ => ([], false)
  | fuel + 1, tokens =>
    match statement tokens with
    | none => ([], false)
    | some (.end_, _) => ([], true)
    | some (.error, _) => ([], false)
    | some (s, []) => ([s], true)
    | some (s, .char 32 :: rest) => (s :: (parse fuel rest).1, (parse fuel rest).2)
    | some (s, _) => ([s], false)

/-- The actions of the statements. The first one that fails ends the parser. -/
def execute (apply : Memcached → Statement → ReturnT × Memcached) (H : Hashkit.Hashes) (now : Nat) :
    Memcached → List Statement → ReturnT × Memcached
  | memc, [] => (.success, memc)
  | memc, s :: rest =>
    let (rc, memc) :=
      match s with
      | .server hostname port weight => memc.serverAddWithWeight H now hostname (.ofNat port) (.ofNat weight)
      | _ => apply memc s
    if rc.isFailed then (.parseError, memc) else execute apply H now memc rest

/-- `memcached_parse_configuration`. The number of bytes that are left is handed to the scanner as an `int`, and
zero stands for the end. -/
def memcachedParseConfiguration (apply : Memcached → Statement → ReturnT × Memcached) (H : Hashkit.Hashes)
    (now : Nat) (self : Memcached) (optionString : Bytes) : ReturnT × Memcached :=
  let tokens := scan true false (optionString.take (optionString.length % 2 ^ 32))
  let (statements, accepted) := parse (tokens.length + 1) tokens
  let (rc, memc) := execute apply H now self statements
  (if rc.isFailed ∨ !accepted then .parseError else rc, memc)

end LM.Csl
