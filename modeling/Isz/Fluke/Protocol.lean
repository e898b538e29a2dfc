import Isz.Library.Runs
import Isz.Library.Text
import Mathlib.Logic.Function.Basic

namespace Isz.Fluke

inductive ConnectionState where
  | disconnected
  | connecting
  | initializing
  | ready
  deriving DecidableEq

-- the two calls of _ask that _run makes, and the calls of ask
inductive Caller where
  | init
  | format
  | ask (n : Nat)
  deriving DecidableEq

inductive Message where
  | interrupt (owner : Caller)
  | line (owner : Caller)
  deriving DecidableEq

def Message.owner : Message → Caller
  | .interrupt owner => owner
  | .line owner => owner

structure Response where
  owner : Caller
  resp : Str
  deriving DecidableEq

def splitLines : Str → List Str
  | [] => [[]]
  | '\r' :: '\n' :: rest => [] :: splitLines rest
  | c :: rest =>
    match splitLines rest with
    | [] => [[c]]
    | line :: lines => (c :: line) :: lines

inductive Answer where
  | result (value : Option Str)
  | commandError
  | executionError
  | valueError
  deriving DecidableEq

def answer (resp : Str) : Answer :=
  let lines := splitLines resp
  if lines.getLast? = some ['?'] then .commandError
  else if lines.getLast? = some ['!'] then .executionError
  else if lines.getLast? = some ['='] then
    .result (if lines.length > 1 then lines.head? else none)
  else .valueError

def Answer.raises : Answer → Bool
  | .result _ => false
  | _ => true

inductive Fut where
  | pending
  | done (response : Response)
  | cancelled
  deriving DecidableEq

inductive Outcome where
  | received (response : Response)
  | cancelled
  | typeError
  deriving DecidableEq

-- where a call is suspended, and whether its task has been woken up or cancelled there
inductive Pc where
  | idle
  | connecting (notified cancelled : Bool)
  | waiting (notified cancelled : Bool)
  | shielded (cancelled : Bool)
  | interrupting (holder : Caller) (cancelled : Bool)
  | finished (outcome : Outcome)
  deriving DecidableEq

def Pc.notify : Pc → Pc
  | .connecting _ cancelled => .connecting true cancelled
  | .waiting _ cancelled => .waiting true cancelled
  | pc => pc

-- slot is _pending_response, by the caller that made the future
structure State where
  conn : ConnectionState
  slot : Option Caller
  fut : Caller → Fut
  pc : Caller → Pc
  asked : Caller → Bool
  toMeter : List Message
  executing : Option Caller
  fromMeter : List Response

def initial : State where
  conn := .disconnected
  slot := none
  fut := fun _ => .pending
  pc := fun _ => .idle
  asked := fun _ => false
  toMeter := []
  executing := none
  fromMeter := []

namespace State

def setPc (s : State) (c : Caller) (pc : Pc) : State :=
  { s with pc := Function.update s.pc c pc }

def setFut (s : State) (c : Caller) (fut : Fut) : State :=
  { s with fut := Function.update s.fut c fut }

def write (s : State) (m : Message) : State := { s with toMeter := s.toMeter ++ [m] }

def notifyAll (s : State) : State := { s with pc := fun c => (s.pc c).notify }

-- a cancelled waiter may pass its notification on
def passOn (s : State) : Option Caller → State
  | none => s
  | some c => s.setPc c (s.pc c).notify

def command : Caller → Message
  | .init => .interrupt .init
  | c => .line c

-- _ask from the test of its loop to where it is suspended next; the lock is never held there
def enterAsk (s : State) (c : Caller) : State :=
  match s.slot with
  | some _ => s.setPc c (.waiting false false)
  | none => (({ s with slot := some c }.setFut c .pending).write (command c)).setPc c
      (.shielded false)

def enterConnect (s : State) (c : Caller) : State :=
  if s.conn = .ready then s.enterAsk c else s.setPc c (.connecting false false)

def finish (s : State) (c : Caller) (outcome : Outcome) : State :=
  let s := s.setPc c (.finished outcome)
  match c, outcome with
  | .ask _, _ => s
  | .init, .received r => if (answer r.resp).raises then s else s.enterAsk .format
  | .format, .received r =>
    if (answer r.resp).raises then s else { s with conn := .ready }.notifyAll
  | _, .cancelled => { s with conn := .disconnected }
  | _, .typeError => s

-- the except clause of _ask reads _pending_response again
def interrupt (s : State) (c : Caller) : State :=
  let s := s.write (.interrupt c)
  match s.slot with
  | none => s.finish c .typeError
  | some holder => s.setPc c (.interrupting holder false)

def start (s : State) (c : Caller) : Option State :=
  match s.pc c, c with
  | .idle, .init => some ({ s with conn := .connecting }.notifyAll.enterAsk .init)
  | .idle, .ask n => some (s.enterConnect (.ask n))
  | _, _ => none

def resume (s : State) (c : Caller) (next : Option Caller) : Option State :=
  match s.pc c with
  | .connecting _ true => some ((s.finish c .cancelled).passOn next)
  | .connecting true false => some (s.enterConnect c)
  | .waiting _ true => some ((s.finish c .cancelled).passOn next)
  | .waiting true false => some (s.enterAsk c)
  | .shielded true => some (s.interrupt c)
  | .shielded false =>
    match s.fut c with
    | .pending => none
    | .done r => some (s.finish c (.received r))
    | .cancelled => some (s.interrupt c)
  | .interrupting _ true => some (s.finish c .cancelled)
  | .interrupting holder false =>
    match s.fut holder with
    | .pending => none
    | .done r => some (s.finish c (if (answer r.resp).raises then .received r else .cancelled))
    | .cancelled => some (s.finish c .cancelled)
  | _ => none

-- only the future that is awaited without a shield is cancelled with its task
def cancel (s : State) (n : Nat) : Option State :=
  let s := { s with asked := Function.update s.asked (.ask n) true }
  match s.pc (.ask n) with
  | .connecting notified _ => some (s.setPc (.ask n) (.connecting notified true))
  | .waiting notified _ => some (s.setPc (.ask n) (.waiting notified true))
  | .shielded _ => some (s.setPc (.ask n) (.shielded true))
  | .interrupting holder _ =>
    let s := s.setPc (.ask n) (.interrupting holder true)
    match s.fut holder with
    | .pending => some (s.setFut holder .cancelled)
    | _ => some s
  | _ => none

def take (s : State) : Option State :=
  match s.executing, s.toMeter with
  | none, .line c :: rest => some { s with executing := some c, toMeter := rest }
  | _, _ => none

-- a ^C ends what is being executed and is answered alone
def abort (s : State) (resp : Str) : Option State :=
  match s.toMeter with
  | .interrupt c :: rest => some
    { s with executing := none, toMeter := rest, fromMeter := s.fromMeter ++ [⟨c, resp⟩] }
  | _ => none

def reply (s : State) (resp : Str) : Option State :=
  match s.executing with
  | some c => some { s with executing := none, fromMeter := s.fromMeter ++ [⟨c, resp⟩] }
  | none => none

-- data_received, for one prompt; set_result raises on a cancelled future, and the slot stays
def dataReceived (s : State) : Option State :=
  match s.fromMeter, s.slot with
  | [], _ => none
  | _ :: rest, none => some { s with fromMeter := rest }
  | r :: rest, some c =>
    match s.fut c with
    | .pending => some ({ s with fromMeter := rest, slot := none }.setFut c (.done r))
    | _ => some { s with fromMeter := rest }

end State

inductive Action where
  | start (c : Caller)
  | resume (c : Caller) (next : Option Caller)
  | cancel (n : Nat)
  | take
  | abort (resp : Str)
  | reply (resp : Str)
  | dataReceived

def step (s : State) : Action → Option State
  | .start c => s.start c
  | .resume c next => s.resume c next
  | .cancel n => s.cancel n
  | .take => s.take
  | .abort resp => s.abort resp
  | .reply resp => s.reply resp
  | .dataReceived => s.dataReceived

end Isz.Fluke
