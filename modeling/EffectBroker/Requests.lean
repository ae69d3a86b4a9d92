import EffectBroker.Coroutine
import EffectBroker.Errors
import EffectBroker.Observability

/-!
# What the broker's procedures await

The procedures of the broker touch the world only through requests: to the store, to
the clock, to adapters, and to the metrics.  What an adapter returns is any object at
all, so an answer records what reading each attribute of it yields.
-/
namespace EffectBroker
open Python Concurrency

/-- What reading the result of `adapter.dispatch` yields: its truth value of
`committed`, its `external_id`, and `dict(output)`. -/
structure DispatchReturn where
  committed : Except Exc Bool
  externalId : Except Exc Value
  output : Except Exc Items

/-- Reading a well-formed `DispatchResult`. -/
def DispatchResult.read (result : DispatchResult) : DispatchReturn :=
  ⟨.ok result.committed, .ok (optionalText result.externalId), .ok result.output⟩

/-- The object found as `probe.status`: a member of `ProbeStatus`, or anything else
with a `value`. -/
inductive ReportedStatus where
  | known (status : ProbeStatus)
  | foreign (label : Str)
deriving DecidableEq

/-- `probe.status.value`. -/
def ReportedStatus.label : ReportedStatus → Str
  | .known status => status.value
  | .foreign label => label

/-- What reading the result of `adapter.probe` yields; `output` is `none` when
`probe.output` is `None`. -/
structure ProbeReturn where
  status : Except Exc ReportedStatus
  externalId : Except Exc Value
  output : Except Exc (Option Items)
  evidence : Except Exc Items

/-- Reading a well-formed `ProbeResult`. -/
def ProbeResult.read (result : ProbeResult) : ProbeReturn :=
  ⟨.ok (.known result.status), .ok (optionalText result.externalId), .ok result.output,
    .ok result.evidence⟩

/-- What a procedure can await. -/
inductive Request where
  | reserve (tenantId : Str) (request : EffectRequest) (contract : EffectContract)
  | claimDue (workerId : Str) (now : Datetime) (leaseFor : Timedelta) (limit : Int)
  | startAttempt (effectId : Str) (expectedVersion : Int) (workerId : Str)
  | transition (effectId : Str) (expectedVersion : Int) (target : EffectStatus) (data : Items)
  | get (tenantId effectId : Str)
  /-- `datetime.now(UTC)`. -/
  | clock
  | adapterFor (effect : EffectRecord)
  | dispatch (effect : EffectRecord) (attemptId : Str)
  | probe (effect : EffectRecord)
  | record (metric : Metric)

/-- What answers each request. -/
abbrev Response : Request → Type
  | .reserve .. => Except Exc Reservation
  | .claimDue .. => Except Exc (List EffectRecord)
  | .startAttempt .. => Except Exc Str
  | .transition .. => Except Exc EffectRecord
  | .get .. => Except Exc (Option EffectRecord)
  | .clock => Datetime
  | .adapterFor _ => Except Exc Unit
  | .dispatch .. => Except Exc DispatchReturn
  | .probe _ => Except Exc ProbeReturn
  | .record _ => Unit

/-- A procedure of the broker. -/
abbrev Program := Coroutine Response Exc

/-- The calls of adapter code that take time: `adapter.dispatch` and `adapter.probe`. -/
def Request.external : Request → Bool
  | .dispatch .. | .probe _ => true
  | _ => false

namespace Program

def reserve (tenantId : Str) (request : EffectRequest) (contract : EffectContract) :
    Program Reservation := do
  Coroutine.ofExcept (← Coroutine.request (.reserve tenantId request contract))

def claimDue (workerId : Str) (now : Datetime) (leaseFor : Timedelta) (limit : Int) :
    Program (List EffectRecord) := do
  Coroutine.ofExcept (← Coroutine.request (.claimDue workerId now leaseFor limit))

def startAttempt (effectId : Str) (expectedVersion : Int) (workerId : Str) : Program Str := do
  Coroutine.ofExcept (← Coroutine.request (.startAttempt effectId expectedVersion workerId))

def transition (effectId : Str) (expectedVersion : Int) (target : EffectStatus) (data : Items) :
    Program EffectRecord := do
  Coroutine.ofExcept (← Coroutine.request (.transition effectId expectedVersion target data))

def get (tenantId effectId : Str) : Program (Option EffectRecord) := do
  Coroutine.ofExcept (← Coroutine.request (.get tenantId effectId))

def clock : Program Datetime := Coroutine.request Request.clock

def adapterFor (effect : EffectRecord) : Program Unit := do
  Coroutine.ofExcept (← Coroutine.request (.adapterFor effect))

def dispatch (effect : EffectRecord) (attemptId : Str) : Program DispatchReturn := do
  Coroutine.ofExcept (← Coroutine.request (.dispatch effect attemptId))

def probe (effect : EffectRecord) : Program ProbeReturn := do
  Coroutine.ofExcept (← Coroutine.request (.probe effect))

def record (metric : Metric) : Program Unit :=
  Coroutine.request (Request.record metric)

/-- `t + d`, which raises `OverflowError` outside the range of `datetime`. -/
def addTime (t : Datetime) (d : Timedelta) : Program Datetime :=
  match t.add d with
  | some u => .done u
  | none => .raised .overflowError

end Program
end EffectBroker
