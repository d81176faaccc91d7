import ExportAudit.Discovery
import ExportAudit.Journal

/-!
# Triggers

What asks for a run of the analysis: a `Debouncer` once changes have settled, a `Poller` at fixed intervals, and a
`Watcher` when the times of source files have changed. Each is a state with its atomic steps; the waiting itself is left
to the outer layer.
-/

namespace ExportAudit

/-! ## Debouncing -/

/-- A trigger that waits until no further trigger has come for a while. Timers are numbered in the order of their start.
A timer that runs out clears the field `timer` before it makes its call, and the two steps may lie apart. -/
structure Debouncer where
  /-- The timer that the next trigger will cancel. -/
  timer : Option Nat := none
  started : Nat := 0
  /-- Started timers that have neither been cancelled nor run out. -/
  waiting : List Nat := []
  /-- Timers that have run out and have not yet cleared the field. -/
  expired : List Nat := []
  /-- Timers that have cleared the field and have not yet made their call. -/
  cleared : List Nat := []
  calls : Nat := 0
  deriving DecidableEq, Repr

namespace Debouncer

/-- Whether a call is still to come, as far as the field tells. -/
def isPending (b : Debouncer) : Bool :=
  b.timer.isSome

/-- Cancels the timer in the field. A timer that has run out is not stopped by it. -/
def cancel (b : Debouncer) : Debouncer :=
  match b.timer with
  | none => b
  | some t => { b with timer := none, waiting := b.waiting.erase t }

/-- Starts a timer in place of the one in the field. -/
def trigger (b : Debouncer) : Debouncer :=
  let b := b.cancel
  { b with timer := some b.started, started := b.started + 1, waiting := b.waiting ++ [b.started] }

/-- A timer runs out. -/
def expire (t : Nat) (b : Debouncer) : Debouncer :=
  if b.waiting.contains t then { b with waiting := b.waiting.erase t, expired := b.expired ++ [t] } else b

/-- A timer that has run out clears the field. -/
def clear (t : Nat) (b : Debouncer) : Debouncer :=
  if b.expired.contains t then
    { b with timer := none, expired := b.expired.erase t, cleared := b.cleared ++ [t] }
  else b

/-- A timer that has cleared the field makes its call. -/
def call (t : Nat) (b : Debouncer) : Debouncer :=
  if b.cleared.contains t then { b with cleared := b.cleared.erase t, calls := b.calls + 1 } else b

/-- The timer in the field runs out and makes its call at once; without one the call is made all the same. -/
def fire (b : Debouncer) : Debouncer :=
  match b.timer with
  | some t => ((b.expire t).clear t).call t
  | none => { b with calls := b.calls + 1 }

end Debouncer

/-! ## Polling -/

/-- A trigger that calls at fixed intervals on a thread of its own, until it is told to stop. -/
structure Poller where
  stopRequested : Bool := false
  /-- Whether there is a thread, and whether it is alive. -/
  thread : Option Bool := none
  deriving DecidableEq, Repr

namespace Poller

def isAlive (p : Poller) : Bool :=
  p.thread == some true

/-- Starts a thread, unless one is alive. -/
def start (p : Poller) : Poller :=
  if p.isAlive then p else { stopRequested := false, thread := some true }

/-- Tells the thread to stop. -/
def requestStop (p : Poller) : Poller :=
  { p with stopRequested := true }

/-- An interval passes. The thread makes a call, or ends if it was told to stop; the answer tells which. -/
def tick (p : Poller) : Poller × Bool :=
  if !p.isAlive then (p, false)
  else if p.stopRequested then ({ p with thread := some false }, false)
  else (p, true)

/-- Stops the thread and drops it. -/
def stop (_ : Poller) : Poller :=
  { stopRequested := true, thread := none }

end Poller

/-! ## Watching -/

/-- A trigger that compares the times of the source files with those of its last look. -/
structure Watcher where
  root : String
  settings : Settings := {}
  snapshot : List (String × Int) := []
  isAlive : Bool := false
  /-- The number of changes seen. -/
  fired : Nat := 0

namespace Watcher

/-- The times of the source files; a file that is gone meanwhile is left out. -/
def look (w : Watcher) (d : Disk) : Except DiscoveryError (List (String × Int)) :=
  (findFiles d w.root w.settings).map fun files =>
    files.filterMap fun file => (d.modified? file).map fun time => (file, time)

/-- Looks for changes: the watcher after it, whether there are any, and what is noted. -/
def check (w : Watcher) (d : Disk) : Watcher × Bool × List Note :=
  match w.look d with
  | .error e => (w, false, [.warning ("Change detection skipped: " ++ e.message)])
  | .ok current =>
    let changed := current != w.snapshot
    ({ w with snapshot := current, fired := if changed then w.fired + 1 else w.fired }, changed, [])

/-- Starts the watch with a first look. -/
def start (w : Watcher) (d : Disk) : Watcher × List Note :=
  match w.look d with
  | .error e => ({ w with isAlive := true }, [.warning ("Initial snapshot failed: " ++ e.message)])
  | .ok current => ({ w with snapshot := current, isAlive := true }, [])

def stop (w : Watcher) : Watcher :=
  { w with isAlive := false }

end Watcher

end ExportAudit
