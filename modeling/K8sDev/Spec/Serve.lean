import K8sDev.Lts.Run
import Mathlib.Data.Option.Basic

/-!
# The plugin process

`run` and `serve` of `extended-resource` as a state machine, next to an environment that may
delete or rename the plugin's socket, touch other files, stop the server or cancel the context.
A step is one call of the source; each may fail.

Of `fsnotify` it is assumed that everything that happens in the directory once `Add` has
returned is queued in order, and of a listener that closing it unlinks its path at most once.
-/

namespace K8sDev.Serve

/-- `fsnotify.Op`, as the set of its bits. -/
inductive Op
  | create
  | write
  | remove
  | rename
  | chmod
deriving DecidableEq, Repr

/-- `fsnotify.Event`. -/
structure Event where
  name : String
  op : List Op
deriving DecidableEq, Repr

/-- `event.Name == p.socket && event.Op&(fsnotify.Remove|fsnotify.Rename) != 0`. -/
def Event.isGone (socket : String) (event : Event) : Bool :=
  event.name == socket && (event.op.contains .remove || event.op.contains .rename)

/-- Where `serve` is. -/
inductive Pc
  /-- About to call `removeSocket`. -/
  | start
  /-- About to call `NewWatcher`. -/
  | removed
  /-- About to call `watcher.Add`. -/
  | created
  /-- About to call `net.Listen`. -/
  | watching
  /-- About to call `register`. -/
  | listening
  /-- Waiting for the timer after a failed registration. -/
  | retrying
  /-- In the event loop. -/
  | serving
  /-- About to call `server.Stop`, then to return `errKubeletRestart`. -/
  | stopping
  /-- The deferred calls. -/
  | returning
  /-- `run` has returned. -/
  | exited
deriving DecidableEq, Repr

/-- The process and its directory. `generation` counts the calls of `serve`; the fields below it
remember, for the statements, when `net.Listen` and `register` succeeded last and whether the
watch was installed before that `net.Listen`. -/
structure Process where
  pc : Pc := .start
  /-- There is a file at `p.socket`. -/
  file : Bool
  /-- The queue of the watch, once it is installed. -/
  watch : Option (List Event) := none
  /-- The listener of this call of `serve` is bound. -/
  bound : Bool := false
  /-- The listener was closed and has unlinked its path. -/
  unlinked : Bool := false
  /-- The channel `serveErr` holds an error. -/
  serveErr : Bool := false
  /-- `ctx` is done. -/
  ctxDone : Bool := false
  generation : ℕ := 0
  listened : Option ℕ := none
  registered : Option ℕ := none
  underWatch : Bool := false
deriving DecidableEq

inductive Label
  | removeSocket (ok : Bool)
  | newWatcher (ok : Bool)
  | add (ok : Bool)
  | listen (ok : Bool)
  | register (ok : Bool)
  /-- The timer fires. -/
  | retry
  /-- `ctx.Done` in `registerWithRetry` -/
  | giveUp
  /-- The four cases of the event loop -/
  | done
  | serveErr
  | event
  /-- An error, or a closed channel. -/
  | watcherErr
  | stop
  /-- The deferred calls, and the test in `run` -/
  | return_
  /-- The environment deletes or renames the socket: -/
  | lose (op : Op)
  /-- something else happens in the directory, -/
  | touch (event : Event)
  /-- the context is cancelled, -/
  | cancel
  /-- `server.Serve` fails. -/
  | serveFails
deriving DecidableEq

/-- An event is queued, if there is a watch. -/
def Process.notify (s : Process) (event : Event) : Process :=
  { s with watch := s.watch.map (· ++ [event]) }

/-- The file at `p.socket` goes away, if there is one. -/
def Process.vanish (socket : String) (s : Process) (op : Op) : Process :=
  { s with
    file := false
    watch := if s.file then s.watch.map (· ++ [⟨socket, [op]⟩]) else s.watch }

/-- `listener.Close`. -/
def Process.closeListener (socket : String) (s : Process) : Process :=
  if s.bound && !s.unlinked then { s.vanish socket .remove with unlinked := true } else s

/-- `serve` returns something else than `errKubeletRestart`, and `run` returns it. -/
def Process.exit (socket : String) (s : Process) : Process :=
  { s.closeListener socket with pc := .exited, watch := none }

/-- The next step, or leave if the call failed. -/
def Process.proceed (socket : String) (s : Process) (ok : Bool) (next : Process) : Process :=
  if ok then next else s.exit socket

/-- The deferred `listener.Close` and `watcher.Close`, and the loop of `run`. -/
def Process.return_ (socket : String) (s : Process) : Process :=
  let s := { s.closeListener socket with watch := none, bound := false, serveErr := false }
  if s.ctxDone then { s with pc := .exited }
  else { s with pc := .start, generation := s.generation + 1 }

def Process.step (socket : String) (s : Process) (a : Label) : Option Process :=
  match a, s.pc with
  | .removeSocket ok, .start =>
    some (s.proceed socket ok { s.vanish socket .remove with pc := .removed })
  | .newWatcher ok, .removed => some (s.proceed socket ok { s with pc := .created })
  | .add ok, .created => some (s.proceed socket ok { s with pc := .watching, watch := some [] })
  | .listen ok, .watching =>
    -- an address that exists cannot be bound
    if ok && s.file then none
    else some (s.proceed socket ok
      { s.notify ⟨socket, [.create]⟩ with
        pc := .listening
        file := true
        bound := true
        unlinked := false
        listened := some s.generation
        underWatch := s.watch.isSome })
  | .register ok, .listening =>
    if ok then some { s with pc := .serving, registered := some s.generation }
    else some { s with pc := .retrying }
  | .retry, .retrying => some { s with pc := .listening }
  | .giveUp, .retrying => if s.ctxDone then some (s.exit socket) else none
  | .done, .serving => if s.ctxDone then some (s.exit socket) else none
  | .serveErr, .serving => if s.serveErr then some (s.exit socket) else none
  | .event, .serving =>
    match s.watch with
    | some (event :: events) =>
      if event.isGone socket then some { s with pc := .stopping, watch := some events }
      else some { s with watch := some events }
    | _ => none
  | .watcherErr, .serving => some (s.exit socket)
  | .stop, .stopping => some { s.closeListener socket with pc := .returning }
  | .return_, .returning => some (s.return_ socket)
  | .lose op, _ =>
    if s.file && (op == .remove || op == .rename) then some (s.vanish socket op) else none
  | .touch event, _ => if event.isGone socket then none else some (s.notify event)
  | .cancel, _ => some { s with ctxDone := true }
  | .serveFails, .listening | .serveFails, .retrying | .serveFails, .serving =>
    some { s.closeListener socket with serveErr := true }
  | _, _ => none

/-- The process, started with or without an old socket. -/
def process (socket : String) : Lts Process Label where
  init s := s = { file := s.file }
  step s a t := s.step socket a = some t

end K8sDev.Serve
