import Mathlib.Tactic.Common

/-!
`_BroadcastStreamController` and its synchronous, asynchronous and `asBroadcastStream` subclasses. User code runs while
a `listener` or `handler` frame is on top of the stack, or none at all, and may then perform any operation.
-/

namespace DartSdk.Async
variable {T E : Type}

inductive Event (T E : Type)
  | data (data : T)
  | error (error : E)
  | done

structure Subscription (T E : Type) where
  cancelOnError : Bool
  eventId : Bool
  isFiring : Bool := false
  removeAfterFiring : Bool := false
  isCanceled : Bool := false
  waitsForCancel : Bool := false
  inCallback : Bool := false
  pending : List (Event T E) := []

inductive Kind
  | sync | async | asBroadcast
deriving DecidableEq

inductive Frame (T E : Type)
  -- a callback of the subscription, and `onListen` or `onCancel`
  | listener (s : ℕ)
  | handler
  -- what is left of the controller's methods once the call they make returns
  | sendData
  | loop (id : Bool) (event : Event T E) (subscription : Option ℕ)
  | fired (id : Bool) (event : Event T E) (subscription : ℕ)
  | flushPending (generation : Option ℕ)
  -- what is left of the subscription's methods once `_cancel` returns
  | sendError (s : ℕ)
  | sendDone (s : ℕ)

inductive Call
  | onListen | onCancel
deriving DecidableEq

/-- `generation` counts the queues that `_callOnCancel` has dropped; `calls` is the history of the controller's callbacks. -/
structure Controller (T E : Type) where
  eventId : Bool := false
  isFiring : Bool := false
  isClosed : Bool := false
  subscriptions : List ℕ := []
  subscription : ℕ → Subscription T E := fun _ => { cancelOnError := false, eventId := false }
  created : ℕ := 0
  pending : List (Event T E) := []
  generation : ℕ := 0
  stack : List (Frame T E) := []
  calls : List Call := []

namespace Controller
variable (kind : Kind) (s : ℕ) (event : Event T E) (c : Controller T E)

def modify (f : Subscription T E → Subscription T E) : Controller T E :=
  { c with subscription := Function.update c.subscription s (f (c.subscription s)) }

def push (frame : Frame T E) : Controller T E := { c with stack := frame :: c.stack }

def next : Option ℕ := (c.subscriptions.dropWhile (· ≠ s)).tail.head?

def callOnCancel : Controller T E :=
  { c with
    pending := if kind = .asBroadcast then [] else c.pending
    generation := if kind = .asBroadcast then c.generation + 1 else c.generation
    stack := .handler :: c.stack
    calls := c.calls ++ [.onCancel] }

def removeListener : Controller T E := { c with subscriptions := c.subscriptions.erase s }

def subscribe (cancelOnError : Bool) : Controller T E :=
  if c.isClosed then c
  else
    let c' := { c with
      subscription := Function.update c.subscription c.created { cancelOnError, eventId := c.eventId }
      subscriptions := c.subscriptions ++ [c.created]
      created := c.created + 1 }
    if c.subscriptions = [] then { c' with stack := .handler :: c.stack, calls := c.calls ++ [.onListen] } else c'

def recordCancel : Controller T E :=
  if s ∉ c.subscriptions then c
  else if (c.subscription s).isFiring then c.modify s fun sub => { sub with removeAfterFiring := true }
  else
    let c := c.removeListener s
    if !c.isFiring && c.subscriptions = [] then c.callOnCancel kind else c

def cancelSubscription : Controller T E :=
  (c.modify s fun sub => { sub with isCanceled := true }).recordCancel kind s

def cancel : Controller T E :=
  let c := c.modify s fun sub => { sub with waitsForCancel := false }
  if (c.subscription s).isCanceled then c else c.cancelSubscription kind s

def runCallback : Controller T E := (c.modify s fun sub => { sub with inCallback := true }).push (.listener s)

def addPending : Controller T E := c.modify s fun sub => { sub with pending := sub.pending ++ [event] }

/-- `_sendData`, `_sendError` and `_sendDone` of a subscription. -/
def send : Controller T E :=
  match event with
  | .data _ => c.runCallback s
  | .error _ =>
    if (c.subscription s).cancelOnError then
      ((c.modify s fun sub => { sub with waitsForCancel := true }).push (.sendError s)).cancelSubscription kind s
    else c.runCallback s
  | .done => (c.push (.sendDone s)).cancelSubscription kind s

/-- `_add`, `_addError` and `_close` of a subscription. -/
def receive : Controller T E :=
  if (c.subscription s).isCanceled then c
  else if (c.subscription s).inCallback || !(c.subscription s).pending.isEmpty then c.addPending s event
  else c.send kind s event

def endFiring : Controller T E :=
  let c := { c with isFiring := false }
  if c.subscriptions = [] then c.callOnCancel kind else c

def forEachListener : Controller T E :=
  if c.isFiring || c.subscriptions = [] then c
  else { c with eventId := !c.eventId, isFiring := true }.push (.loop c.eventId event c.subscriptions.head?)

/-- `_sendData`, `_sendError` and `_sendDone` of a controller. -/
def dispatch : Controller T E :=
  match kind, event, c.subscriptions with
  | .async, _, subscriptions => subscriptions.foldl (fun c s => c.addPending s event) c
  | _, .data _, [s] => ({ c with isFiring := true }.push .sendData).receive kind s event
  | _, _, _ => c.forEachListener event

/-- `add`, `addError` and `close`; where the source throws, nothing changes. -/
def add : Controller T E :=
  let closed := { c with isClosed := c.isClosed || event matches .done }
  match kind with
  | .async => if c.isClosed then c else closed.dispatch .async event
  | .sync => if c.isClosed || c.isFiring then c else closed.dispatch .sync event
  | .asBroadcast =>
    if c.isClosed then c
    else if c.isFiring then { closed with pending := c.pending ++ [event] }
    else if event matches .done then closed.dispatch .asBroadcast event
    else (c.push (.flushPending none)).dispatch .asBroadcast event

/-- What the controller and the subscriptions do next by themselves. -/
def resume : Frame T E → Controller T E → Option (Controller T E)
  | .listener _, _ | .handler, _ => none
  | .sendData, c | .loop _ _ none, c => some (c.endFiring kind)
  | .loop id event (some s), c =>
    if (c.subscription s).eventId = id then
      some (((c.modify s fun sub => { sub with isFiring := true }).push (.fired id event s)).receive kind s event)
    else some (c.push (.loop id event (c.next s)))
  | .fired id event s, c =>
    let next := c.next s
    let c' := if (c.subscription s).removeAfterFiring then c.removeListener s else c
    some ((c'.modify s fun sub => { sub with eventId := !sub.eventId, isFiring := false }).push (.loop id event next))
  | .flushPending generation, c =>
    match c.pending with
    | event :: pending =>
      if generation.getD c.generation = c.generation then
        some (({ c with pending }.push (.flushPending (some c.generation))).dispatch kind event)
      else some c
    | [] => some c
  | .sendError s, c =>
    some (if (c.subscription s).isCanceled && !(c.subscription s).waitsForCancel then c else c.runCallback s)
  | .sendDone s, c => some ((c.modify s fun sub => { sub with waitsForCancel := true }).runCallback s)

end Controller

inductive Op (T E : Type)
  | listen (cancelOnError : Bool)
  | cancel (s : ℕ)
  | add (event : Event T E)
  -- the callback that is running returns
  | return
  | microtask (s : ℕ)
  | resume

def inUserCode : List (Frame T E) → Bool
  | [] | .listener _ :: _ | .handler :: _ => true
  | _ => false

def step (kind : Kind) (c : Controller T E) (op : Op T E) : Option (Controller T E) :=
  match op, c.stack with
  | .listen cancelOnError, stack => if inUserCode stack then some (c.subscribe cancelOnError) else none
  | .cancel s, stack => if inUserCode stack then some (c.cancel kind s) else none
  | .add event, stack => if inUserCode stack then some (c.add kind event) else none
  | .return, .listener s :: stack => some ({ c with stack }.modify s fun sub => { sub with inCallback := false })
  | .return, .handler :: stack => some { c with stack }
  | .microtask s, [] =>
    match (c.subscription s).isCanceled, (c.subscription s).pending with
    | false, event :: pending => some ((c.modify s fun sub => { sub with pending }).send kind s event)
    | _, _ => none
  | .resume, frame :: stack => Controller.resume kind frame { c with stack }
  | _, _ => none

end DartSdk.Async
