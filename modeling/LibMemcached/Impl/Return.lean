import Mathlib.Algebra.Group.Int.Defs
import Mathlib.Algebra.Group.Nat.Defs

/-!
# Return codes

`memcached_return_t` and its three tests `memcached_success`,
`memcached_failed` and `memcached_fatal`. The three are not complements of one
another: a reply such as `NOT_FOUND` has failed but is not fatal, and only a
fatal code makes the response path close the connection.
-/

namespace LM

/-- `memcached_return_t`. -/
inductive ReturnT where
  | success | failure | hostLookupFailure | connectionFailure | connectionBindFailure
  | writeFailure | readFailure | unknownReadFailure | protocolError | clientError | serverError
  | error | dataExists | dataDoesNotExist | notStored | stored | notFound
  | memoryAllocationFailure | partialRead | someErrors | noServers | end_ | deleted | value | stat
  | item | errno | failUnixSocket | notSupported | noKeyProvided | fetchNotFinished | timeout
  | buffered | badKeyProvided | invalidHostProtocol | serverMarkedDead | unknownStatKey | e2big
  | invalidArguments | keyTooBig | authProblem | authFailure | authContinue | parseError
  | parseUserError | deprecated | inProgress | serverTemporarilyDisabled
  | serverMemoryAllocationFailure | maximumReturn
  deriving DecidableEq, Repr

namespace ReturnT

/-- `memcached_success`. -/
def isSuccess : ReturnT → Bool
  | buffered | deleted | end_ | item | stat | stored | success | value => true
  | _ => false

/-- `memcached_failed`. -/
def isFailed : ReturnT → Bool
  | authContinue | buffered | deleted | end_ | item | stat | stored | success | value => false
  | _ => true

/-- `memcached_fatal`. -/
def isFatal : ReturnT → Bool
  | authContinue | buffered | clientError | dataExists | deleted | e2big | end_ | item | error
  | notFound | notStored | someErrors | serverMemoryAllocationFailure | stat | stored | success
  | value => false
  | _ => true

theorem isFailed_of_isFatal {rc : ReturnT} (h : rc.isFatal = true) : rc.isFailed = true := by
  cases rc <;> simp_all [isFatal, isFailed]

theorem isFailed_of_isSuccess {rc : ReturnT} (h : rc.isSuccess = true) : rc.isFailed = false := by
  cases rc <;> simp_all [isSuccess, isFailed]

end ReturnT

end LM
