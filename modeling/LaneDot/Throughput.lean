/-!
# Throughput

Operation counts, traffic and rates of fused dot products.  Counts are 64-bit
words and wrap; rates are binary64.
-/

namespace LaneDot.Throughput

/-- Floating point operations of one call; a multiply-add is two. -/
def operations (fusion length : UInt64) : UInt64 :=
  2 * fusion * length

/-- Bytes that one call reads: each single once and each row of codes once. -/
def bytesRead (fusion length : UInt64) : UInt64 :=
  length * 4 + fusion * length * 2

def gigaOperations (fusion length : UInt64) (seconds : Float) : Float :=
  (operations fusion length).toFloat / seconds / 1e9

def gibibytes (bytes : UInt64) (seconds : Float) : Float :=
  bytes.toFloat / seconds / 1073741824.0

end LaneDot.Throughput
