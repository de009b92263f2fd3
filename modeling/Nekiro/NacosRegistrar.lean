import Nekiro.NacosDirectory
import Nekiro.Transitions

/-!
# The Nacos registrar

`Register` posts an instance and starts the goroutine that keeps it alive,
`Lease.Close` and `Registrar.Close` take it back. A call of `Register` that
has passed its checks has a session of its own, so what such a call does
next is part of the session (`RegisterPhase`), and so are its heartbeat
loop (`LoopPhase`) and the body of `session.close`, which one caller runs
while the others wait for it (`ClosePhase`). Of the calls of
`Registrar.Close` only the first goes on after the lock
(`RegistrarClosePhase`); a run is any interleaving of these steps.

What a session did so far, and in which order, is in its `log`. A request
that was sent may be answered in any way (`Reply`).
-/

namespace Nekiro

open Json Guard Strings

namespace Registry.Nacos

/-! ## Registrations -/

structure Registration where
  target : ReleaseTarget
  inst : Instance

def Registration.validate [UnicodeCase] (r : Registration) : Except OutcomeError Unit := do
  orFail errInvalid (InstanceSnapshot.validateTarget r.target)
  orFail errInvalid r.inst.validate
  require (r.inst.state = .ready) errInvalid

/-- What of the configuration decides what is done; the rest is text in the
requests. The interval is in nanoseconds. -/
structure RegistrarConfig where
  binding : Binding
  portName : Bytes
  heartbeatInterval : Int

def registrationEndpoint (i : Instance) (portName : Bytes) : Except OutcomeError NetworkEndpoint :=
  match i.endpoints.filter fun e =>
    decide (e.portName = portName ∧ e.protocol = transportProtocolTCP
      ∧ (e.addressType = addressTypeIPv4 ∨ e.addressType = addressTypeIPv6)) with
  | [endpoint] => .ok endpoint
  | _ => .error errInvalid

/-- A context as a call gets it: none, or what it reports. -/
abbrev Context : Type := Option (Option ContextError)

/-- `Register` up to the lock. -/
def RegistrarConfig.checks [UnicodeCase] (config : RegistrarConfig) (context : Context)
    (registration : Registration) : Except OutcomeError NetworkEndpoint :=
  match context with
  | none => .error errInvalid
  | some reported => do
      registration.validate
      require (registration.target = config.binding.target) errInvalid
      match reported with
      | some err => .error (newCanceledError err)
      | none => registrationEndpoint registration.inst config.portName

/-! ## Requests -/

def registrationResponseLimit : Nat := 256

/-- What the executor makes of a request: it fails while the context reports
this, or there is a response, of which at most one byte more than the limit
is read. -/
inductive Reply where
  | failed (context : Option ContextError)
  | response (status : Int) (body : Option Bytes)

structure BeatResponse where
  clientBeatInterval : Int

def BeatResponse.fields : List (Json.Field BeatResponse) :=
  [.of "clientBeatInterval" clientBeatInterval (fun r v => { r with clientBeatInterval := v })
    decodeInt64]

def milliseconds (duration : Int) : Int := duration.tdiv 1000000

/-- A heartbeat has to be answered with the interval. -/
def acceptsBeat (interval : Int) (data : Bytes) : Bool :=
  match Json.read Json.maxNestingDepth data >>= fun v =>
      decodeStruct false BeatResponse.fields v ⟨0⟩ with
  | some response => response.clientBeatInterval = milliseconds interval
  | none => false

/-- `strings.TrimSpace(s) == "ok"`. -/
def saysOk (data : Bytes) : Bool :=
  (((runes data).dropWhile Strings.isSpace).reverse.dropWhile Strings.isSpace).reverse = ['o', 'k']

/-- The end of `execute`, for a heartbeat or another request. -/
def outcomeOf (accepts : Bytes → Bool) : Reply → Option OutcomeError
  | .failed (some err) => some (newCanceledError err)
  | .failed none => some errUnavailable
  | .response status body =>
      if status = 401 ∨ status = 403 then some errUnauthorized
      else if status = 429 ∨ status < 200 ∨ 300 ≤ status then some errUnavailable
      else match body with
        | none => some errUnavailable
        | some data =>
            if registrationResponseLimit < data.length then some errInvalid
            else if accepts data then none
            else some errInvalid

/-- What `execute` looks at before it sends a request. -/
def sendable (i : Instance) : Bool :=
  (i.metadata.entries.all fun e => !(utf8 "preserved.").isPrefixOf e.1)
    && (i.metadata.get (utf8 instanceIDMetadataKey)).all (· = i.id)

/-! ## Sessions -/

/-- What a session does that can be seen from outside: a request is sent or
has ended, the heartbeat loop starts or has stopped, and the context of a
close ends while it waits for the loop. -/
inductive Act where
  | post
  | posted (ok : Bool)
  | loopStarted
  | beat
  | beaten (ok : Bool)
  | loopStopped
  | delete
  | deleted (ok : Bool)
  | gaveUp
deriving Repr, DecidableEq

/-- `Register` after its checks: it has to send the request, waits for the
answer, has it; where the registrar is closed it takes the registration
back; it has left the lock for the last time, and has returned. `held` is
whether it returns a lease. -/
inductive RegisterPhase where
  | posting
  | sending
  | posted (err : Option OutcomeError)
  | cleaning
  | deleting
  | terminating
  | finishing (held : Bool)
  | returned (held : Bool)
deriving DecidableEq

/-- The goroutine of `run`. After a heartbeat that failed it ends the lease,
closes `stop` and returns. -/
inductive LoopPhase where
  | absent
  | idle
  | beating
  | failing (err : OutcomeError)
  | halting
  | returning
  | stopped
deriving DecidableEq

/-- The function that `session.closeOnce` runs. -/
inductive ClosePhase where
  | fresh
  | started
  | waiting
  | deleting
  | ending (err : Option OutcomeError)
  | removing
  | done
deriving DecidableEq

/-- The function that `lease.closeOnce` runs: it calls `session.close`. -/
inductive LeaseClosePhase where
  | fresh
  | entering
  | waiting
  | done
deriving DecidableEq

structure Session where
  inst : Instance
  register : RegisterPhase
  loop : LoopPhase
  stop : Bool
  close : ClosePhase
  /-- `Register` has returned the lease. -/
  leased : Bool
  leaseClose : LeaseClosePhase
  terminal : Option OutcomeError
  log : List Act
deriving DecidableEq

/-- A call of `session.close` runs the function if it is the first. -/
def ClosePhase.enter : ClosePhase → ClosePhase
  | fresh => started
  | phase => phase

namespace Session

def new (i : Instance) : Session := ⟨i, .posting, .absent, false, .fresh, false, .fresh, none, []⟩

def record (s : Session) (act : Act) : Session := { s with log := s.log ++ [act] }

/-- `execute` up to the answer. -/
def send (s : Session) (act : Act) : Session := if sendable s.inst then s.record act else s

/-- What `execute` returns. -/
def outcome (s : Session) (accepts : Bytes → Bool) (reply : Reply) : Option OutcomeError :=
  if sendable s.inst then outcomeOf accepts reply else some errInvalid

def answered (s : Session) (act : Bool → Act) (err : Option OutcomeError) : Session :=
  if sendable s.inst then s.record (act err.isNone) else s

/-- `Terminate`, which latches the first outcome. -/
def terminate (s : Session) (err : Option OutcomeError) : Session :=
  { s with terminal := s.terminal <|> some (typedTerminal (err.elim .none .outcome)) }

end Session

/-- The steps of a session that are not taken under the registrar's lock.
Where `stop` is closed and the ticker has fired the loop may go on with
either; a close that waits may see the end of its context although the loop
has stopped. -/
inductive SessionMoves (config : RegistrarConfig) : Session → Session → Prop
  | sendPost (s : Session) : s.register = .posting →
      SessionMoves config s { s.send .post with register := .sending }
  | postEnded (s : Session) (reply : Reply) : s.register = .sending →
      SessionMoves config s
        { s.answered .posted (s.outcome saysOk reply) with
          register := .posted (s.outcome saysOk reply) }
  | sendCleanup (s : Session) : s.register = .cleaning →
      SessionMoves config s { s.send .delete with register := .deleting }
  | cleanupEnded (s : Session) (reply : Reply) : s.register = .deleting →
      SessionMoves config s
        { s.answered .deleted (s.outcome saysOk reply) with register := .terminating }
  | cleanupTerminate (s : Session) : s.register = .terminating →
      SessionMoves config s { s.terminate (some errClosed) with register := .finishing false }
  | tick (s : Session) : s.loop = .idle →
      SessionMoves config s { s.send .beat with loop := .beating }
  | beatEnded (s : Session) (reply : Reply) : s.loop = .beating →
      SessionMoves config s
        { s.answered .beaten (s.outcome (acceptsBeat config.heartbeatInterval) reply) with
          loop := (s.outcome (acceptsBeat config.heartbeatInterval) reply).elim .idle .failing }
  | loopTerminate (s : Session) (err : OutcomeError) : s.loop = .failing err →
      SessionMoves config s { s.terminate (some err) with loop := .halting }
  | loopHalt (s : Session) : s.loop = .halting →
      SessionMoves config s { s with loop := .returning, stop := true }
  | loopStop (s : Session) : s.loop = .idle → s.stop = true →
      SessionMoves config s { s with loop := .returning }
  | loopReturn (s : Session) : s.loop = .returning →
      SessionMoves config s { s.record .loopStopped with loop := .stopped }
  | leaseClose (s : Session) : s.leased = true → s.leaseClose = .fresh →
      SessionMoves config s { s with leaseClose := .entering }
  | leaseEnter (s : Session) : s.leaseClose = .entering →
      SessionMoves config s { s with leaseClose := .waiting, close := s.close.enter }
  | leaseLeave (s : Session) : s.leaseClose = .waiting → s.close = .done →
      SessionMoves config s { s with leaseClose := .done }
  | closeStop (s : Session) : s.close = .started →
      SessionMoves config s { s with close := .waiting, stop := true }
  | closeDelete (s : Session) : s.close = .waiting → s.loop = .stopped →
      SessionMoves config s { s.send .delete with close := .deleting }
  | closeGiveUp (s : Session) (err : ContextError) : s.close = .waiting →
      SessionMoves config s
        { s.record .gaveUp with close := .ending (some (newCanceledError err)) }
  | closeEnded (s : Session) (reply : Reply) : s.close = .deleting →
      SessionMoves config s
        { s.answered .deleted (s.outcome saysOk reply) with
          close := .ending (s.outcome saysOk reply) }
  | closeTerminate (s : Session) (err : Option OutcomeError) : s.close = .ending err →
      SessionMoves config s { s.terminate err with close := .removing }

/-! ## The registrar -/

/-- The first call of `Registrar.Close`, with the sessions it has found. -/
inductive RegistrarClosePhase where
  | notCalled
  | waiting (found : List Nat)
  | closing (todo found : List Nat)
  | inSession (session : Nat) (todo found : List Nat)
  | returned (found : List Nat)

/-- `held` are the numbers of the sessions in the map of the registrar;
`sessions` are all that were ever made. -/
structure Registrar where
  closed : Bool
  registering : Bool
  registerWG : Nat
  held : List Nat
  close : RegistrarClosePhase
  sessions : List Session

def Registrar.new : Registrar := ⟨false, false, 0, [], .notCalled, []⟩

inductive RegistrarEvent where
  | quiet
  | registerRefused (err : OutcomeError)
  | leaseCloseReturned (session : Nat)
  | registrarCloseReturned
deriving DecidableEq

namespace Registrar

/-- The session with this number is in this state. -/
def Has (r : Registrar) (sid : Nat) (s : Session) : Prop := r.sessions[sid]? = some s

def put (r : Registrar) (sid : Nat) (s : Session) : Registrar :=
  { r with sessions := r.sessions.set sid s }

end Registrar

inductive RegistrarMoves [UnicodeCase] (config : RegistrarConfig) :
    Registrar → RegistrarEvent → Registrar → Prop
  | registerInvalid (r : Registrar) (context : Context) (registration : Registration)
      (err : OutcomeError) : config.checks context registration = .error err →
      RegistrarMoves config r (.registerRefused err) r
  | registerClosed (r : Registrar) : r.closed = true →
      RegistrarMoves config r (.registerRefused errClosed) r
  | registerBusy (r : Registrar) : r.closed = false → r.registering = true ∨ r.held ≠ [] →
      RegistrarMoves config r (.registerRefused errInvalid) r
  | register (r : Registrar) (context : Context) (registration : Registration)
      (endpoint : NetworkEndpoint) : config.checks context registration = .ok endpoint →
      r.closed = false → r.registering = false → r.held = [] →
      RegistrarMoves config r .quiet
        { r with
          registering := true
          registerWG := r.registerWG + 1
          sessions := r.sessions ++ [.new registration.inst] }
  | session (r : Registrar) (sid : Nat) (s s' : Session) : r.Has sid s →
      SessionMoves config s s' → RegistrarMoves config r .quiet (r.put sid s')
  | postFailed (r : Registrar) (sid : Nat) (s : Session) (err : OutcomeError) : r.Has sid s →
      s.register = .posted (some err) →
      RegistrarMoves config r .quiet
        ({ r with registering := false }.put sid { s with register := .finishing false })
  | postHeld (r : Registrar) (sid : Nat) (s : Session) : r.Has sid s →
      s.register = .posted none → r.closed = false →
      RegistrarMoves config r .quiet
        ({ r with registering := false, held := r.held ++ [sid] }.put sid
          { s.record .loopStarted with register := .finishing true, loop := .idle })
  | postCleaned (r : Registrar) (sid : Nat) (s : Session) : r.Has sid s →
      s.register = .posted none → r.closed = true →
      RegistrarMoves config r .quiet
        ({ r with registering := false }.put sid { s with register := .cleaning })
  | registerReturn (r : Registrar) (sid : Nat) (s : Session) (held : Bool) : r.Has sid s →
      s.register = .finishing held →
      RegistrarMoves config r .quiet
        ({ r with registerWG := r.registerWG - 1 }.put sid
          { s with register := .returned held, leased := held })
  | leaseCloseReturn (r : Registrar) (sid : Nat) (s : Session) : r.Has sid s →
      s.leaseClose = .done → RegistrarMoves config r (.leaseCloseReturned sid) r
  | remove (r : Registrar) (sid : Nat) (s : Session) : r.Has sid s → s.close = .removing →
      RegistrarMoves config r .quiet
        ({ r with held := r.held.erase sid }.put sid { s with close := .done })
  | closeAgain (r : Registrar) : r.closed = true → RegistrarMoves config r .quiet r
  | close (r : Registrar) (found : List Nat) : r.closed = false → found.Perm r.held →
      RegistrarMoves config r .quiet { r with closed := true, close := .waiting found }
  | closeWaited (r : Registrar) (found : List Nat) : r.close = .waiting found →
      r.registerWG = 0 → RegistrarMoves config r .quiet { r with close := .closing found found }
  | closeEnter (r : Registrar) (sid : Nat) (todo found : List Nat) (s : Session) :
      r.close = .closing (sid :: todo) found → r.Has sid s →
      RegistrarMoves config r .quiet
        ({ r with close := .inSession sid todo found }.put sid { s with close := s.close.enter })
  | closeLeave (r : Registrar) (sid : Nat) (todo found : List Nat) (s : Session) :
      r.close = .inSession sid todo found → r.Has sid s → s.close = .done →
      RegistrarMoves config r .quiet { r with close := .closing todo found }
  | closeReturn (r : Registrar) (found : List Nat) : r.close = .closing [] found →
      RegistrarMoves config r .registrarCloseReturned { r with close := .returned found }

abbrev RegistrarRun [UnicodeCase] (config : RegistrarConfig) :
    Registrar → List RegistrarEvent → Registrar → Prop :=
  Run (RegistrarMoves config)

/-! ## The registrar of a listed service -/

namespace Registered

def config : RegistrarConfig := ⟨Listed.binding, utf8 "http", 5000000000⟩

def endpointAt (address : String) : NetworkEndpoint :=
  ⟨addressTypeIPv4, utf8 address, utf8 "http", 80, transportProtocolTCP⟩

def registrationAt (address : String) : Registration :=
  ⟨weatherTarget, { Listed.first with endpoints := [endpointAt address] }⟩

def accepted : Reply := .response 200 (some (utf8 "ok"))

theorem checks_registrationAt :
    let _ : UnicodeCase := ⟨fun r => r⟩
    config.checks (some none) (registrationAt "10.0.0.1") = .ok (endpointAt "10.0.0.1") := by
  decide +kernel

end Registered

end Registry.Nacos

end Nekiro
