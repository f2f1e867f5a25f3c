import AtomHeap.System.Cycle
/-!
# A system and its monitor

While the monitor runs, mutators leave requested cycles to it. Its watcher runs them from a thread
to which no mutator belongs.
-/

namespace AtomHeap.System

def startMonitor (s : System) : System :=
  { s.onCollector ({ · with background := true }) with monitor := s.monitor.start }

/-- Stops the monitor. Its watchers see the flag down and leave; each of them takes at most four
steps for that. -/
def stopMonitor (s : System) : System :=
  let monitor := s.monitor.lower.rouse false (4 * s.monitor.watchers.length)
  { s.onCollector ({ · with background := false }) with monitor }

/-- Lets the watcher, whose thread this is, look for a request once and collect if there is one. -/
def watch (s : System) (thread : ThreadId) : Except Fault System := do
  let monitor := s.monitor.rouse s.isRequested 4
  if monitor.watchers.head? = some .collecting then
    let (_, s) ← { s with monitor }.maybeCollect thread
    return { s with monitor := (s.monitor.step? 0 s.isRequested).getD s.monitor }
  else return { s with monitor }

/-- Starts the monitor twice, which is no more than once; lets its watcher see to a pending request;
and stops it. The answer is whether it ran before, meanwhile, and after. -/
def monitorRound (s : System) (thread : ThreadId) : Except Fault (List Bool × System) := do
  let before := s.monitor.running
  let s := s.startMonitor.startMonitor
  let meanwhile := s.monitor.running
  let s := (← s.watch thread).stopMonitor
  return ([before, meanwhile, s.monitor.running], s)

end AtomHeap.System
