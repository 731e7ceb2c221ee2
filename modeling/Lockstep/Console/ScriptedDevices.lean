import Lockstep.Console.Devices

/-!
Devices that follow a script: some words of plain storage, and for each address and each event a list of
actions to take. They remember the calls made to them.
-/

namespace Lockstep.Console

inductive Action where
  | raise (id : ProcessorId) (line : Nat)
  | plan (e : DeviceEvent) (delay : Nat)
  | cancel (e : DeviceEvent)
  | pause
deriving DecidableEq, Repr

def Action.perform (c : DeviceContext) : Action → DeviceContext
  | .raise id line => c.raise id line
  | .plan e delay => c.scheduleAfter e delay
  | .cancel e => c.cancel e
  | .pause => c.pause

inductive DeviceCall where
  | read (id : ProcessorId) (a : Address)
  | write (id : ProcessorId) (a : Address) (v mask : Word)
  | event (e : DeviceEvent) (lateBy now : Nat)
deriving DecidableEq, Repr

/-- What to do when an address is read or written, and when an event comes. -/
structure Script where
  onRead : List (Address × List Action) := []
  onWrite : List (Address × List Action) := []
  onEvent : List (DeviceEvent × List Action) := []

/-- The words of storage, and the calls so far, latest first. -/
structure ScriptState where
  words : List (Address × Word) := []
  calls : List DeviceCall := []

namespace Script

def run (actions : Option (List Action)) (c : DeviceContext) : DeviceContext :=
  (actions.getD []).foldl Action.perform c

/-- Only the words of storage can be read and written; a write keeps the bits that its mask leaves out. -/
def devices (s : Script) : Devices ScriptState where
  read id a d c :=
    (d.words.lookup a, { d with calls := .read id a :: d.calls }, run (s.onRead.lookup a) c)
  write id a v mask d c :=
    let store (w : Address × Word) : Address × Word :=
      if w.1 = a then (a, (w.2 &&& ~~~mask) ||| (v &&& mask)) else w
    ((d.words.lookup a).isSome,
      { words := d.words.map store, calls := .write id a v mask :: d.calls },
      run (s.onWrite.lookup a) c)
  handle e lateBy d c :=
    ({ d with calls := .event e lateBy c.now :: d.calls }, run (s.onEvent.lookup e) c)

end Script

end Lockstep.Console
