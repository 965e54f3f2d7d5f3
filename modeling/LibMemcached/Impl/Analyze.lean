import LibMemcached.Impl.Stats

/-!
# The analysis of a cluster

`libmemcached/analyze.cc`. The numbers of the servers are natural numbers; the hit ratio, a floating-point number, is
left out.
-/

namespace LM

/-- `memcached_analysis_st`. -/
structure Analysis where
  averageItemSize : UInt32 := 0
  longestUptime : UInt32 := 0
  leastFreeServer : Nat := 0
  mostConsumedServer : Nat := 0
  oldestServer : Nat := 0
  mostUsedBytes : UInt64 := 0
  leastRemainingBytes : UInt64 := 0

namespace Analysis

/-- `calc_largest_consumption`. -/
def calcLargestConsumption (result : Analysis) (serverNum : Nat) (nbytes : UInt64) : Analysis :=
  if result.mostUsedBytes < nbytes then
    { result with mostUsedBytes := nbytes, mostConsumedServer := serverNum }
  else result

/-- `calc_oldest_node`. -/
def calcOldestNode (result : Analysis) (serverNum : Nat) (uptime : UInt32) : Analysis :=
  if result.longestUptime < uptime then { result with longestUptime := uptime, oldestServer := serverNum }
  else result

/-- `calc_least_free_node`. -/
def calcLeastFreeNode (result : Analysis) (serverNum : Nat) (maxAllowedBytes usedBytes : UInt64) : Analysis :=
  let remainingBytes := maxAllowedBytes - usedBytes
  if result.leastRemainingBytes = 0 ∨ remainingBytes < result.leastRemainingBytes then
    { result with leastRemainingBytes := remainingBytes, leastFreeServer := serverNum }
  else result

/-- `calc_average_item_size`. -/
def calcAverageItemSize (result : Analysis) (totalItems totalBytes : UInt64) : Analysis :=
  if totalItems > 0 ∧ totalBytes > 0 then { result with averageItemSize := (totalBytes / totalItems).toUInt32 }
  else result

/-- What the loop of `memcached_analyze` does for one server. -/
def calcServer (result : Analysis) (x : Nat) (stat : StatSt) : Analysis :=
  let result := result.calcLargestConsumption x (stat.counter .bytes)
  let result := result.calcOldestNode x (stat.counter .uptime).toUInt32
  result.calcLeastFreeNode x (stat.counter .limitMaxbytes) (stat.counter .bytes)

/-- The loop of `memcached_analyze` from server `x` on. -/
def loop (result : Analysis) (x : Nat) : List StatSt → Analysis
  | [] => result
  | stat :: rest => (result.calcServer x stat).loop (x + 1) rest

/-- A sum of 64 bits over the servers. -/
def total (c : Counter) (stats : List StatSt) : UInt64 := stats.foldl (fun sum stat => sum + stat.counter c) 0

end Analysis

/-- `memcached_analyze`. Without servers the result is written to memory that was not allocated. -/
def memcachedAnalyze (stats : List StatSt) : Option Analysis :=
  if stats = [] then none
  else
    let result := ({} : Analysis).loop 0 stats
    some (result.calcAverageItemSize (Analysis.total .currItems stats) (Analysis.total .bytes stats))

end LM
