import AtomHeap.Memory.Stat
import AtomHeap.System.Basic
/-!
# Metrics

The figures of a whole system at one moment.
-/

namespace AtomHeap

/-- The figures of a system. -/
structure Metrics where
  atoms : Nat
  builtin : Nat
  chains : Nat
  atomBytes : Nat
  heap : HeapStat
  collections : Nat
  collected : Nat
  collectedLast : Nat
  deferred : Nat
  mutators : Nat
  requested : Bool
  standing : Standing
  monitorRuns : Bool
  deriving DecidableEq, Repr

def System.metrics (s : System) : Metrics :=
  { atoms := s.store.table.count
    builtin := s.store.table.builtin
    chains := s.store.table.chains.size
    atomBytes := s.store.table.bytes
    heap := s.store.heap.stat
    collections := s.collector.collections
    collected := s.collector.collectedTotal
    collectedLast := s.collector.collectedLast
    deferred := s.collector.deferred
    mutators := s.collector.registered.length
    requested := s.isRequested
    standing := s.standing
    monitorRuns := s.monitor.running }

end AtomHeap
