import Nekiro.RegistryModel
import Nekiro.Transitions

/-!
# The bounded watch

`localInstanceWatch`: a provider publishes changes into a bounded queue and
terminates the watch, a consumer takes them with `Next`. Publishing,
terminating and closing are done under the lock and are single steps. A
call of `Next` has several: it marks itself as the active one, looks at the
queue, waits for the signal and looks again, and leaves; calls are a pool,
and a run is any interleaving.

A step does one of four things to the watch (`Effect`): nothing that
matters, a change is accepted, an outcome is latched, a change is taken.
`WatchMoves.effect` says which events go with which, and the invariants are
proved over the effects.
-/

namespace Nekiro

open Json Guard Strings

namespace Registry

/-! ## The watch and its steps -/

/-- The signal is the number of the channel: one that is made closes the
one before, so a number that has passed stands for a closed channel. -/
structure LocalInstanceWatch where
  capacity : Nat
  queue : List InstanceChange
  terminal : Option OutcomeError
  targetDeletedPending : Bool
  nextActive : Bool
  signal : Nat
deriving DecidableEq

def newInstanceWatch (queueCapacity : Int) : Except OutcomeError LocalInstanceWatch := do
  require (0 < queueCapacity) (newInvalidError "queue_capacity")
  pure ⟨queueCapacity.toNat, [], none, false, false, 0⟩

def deliveryOverflow : OutcomeError := newOutcomeError .watchInterrupted .deliveryOverflow

namespace LocalInstanceWatch

def notify (w : LocalInstanceWatch) : LocalInstanceWatch := { w with signal := w.signal + 1 }

def latch (w : LocalInstanceWatch) (err : OutcomeError) : LocalInstanceWatch :=
  { w with terminal := some err, queue := [] }.notify

def terminateWith (w : LocalInstanceWatch) (err : OutcomeError) : LocalInstanceWatch :=
  if w.terminal ≠ none ∨ w.targetDeletedPending then w else w.latch err

def close (w : LocalInstanceWatch) : LocalInstanceWatch := w.terminateWith errClosed

def terminate (w : LocalInstanceWatch) (err : ProviderError) : LocalInstanceWatch :=
  w.terminateWith (typedTerminal err)

def push (w : LocalInstanceWatch) (change : InstanceChange) : LocalInstanceWatch :=
  { w with
    queue := w.queue ++ [change]
    targetDeletedPending :=
      if change.kind = InstanceChangeKind.targetDeleted then true
      else w.targetDeletedPending }.notify

def publish [UnicodeCase] (w : LocalInstanceWatch) (change : InstanceChange) :
    Except OutcomeError Unit × LocalInstanceWatch :=
  match change.validate with
  | .error err => (.error err, w)
  | .ok () =>
      if w.targetDeletedPending then (.error errClosed, w)
      else match w.terminal with
        | some err => (.error err, w)
        | none =>
            if w.capacity ≤ w.queue.length then (.error deliveryOverflow, w.latch deliveryOverflow)
            else (.ok (), w.push change)

/-- The watch once its first change, this one, is taken. -/
def pop (w : LocalInstanceWatch) (change : InstanceChange) (rest : List InstanceChange) :
    LocalInstanceWatch :=
  let w := { w with queue := rest }
  if change.kind = .targetDeleted ∧ w.targetDeletedPending ∧ rest = [] then
    { w with targetDeletedPending := false, terminal := some errClosed }.notify
  else w

/-- One look of `Next` at the watch, under the lock; without a result the
call waits. -/
def poll (w : LocalInstanceWatch) (context : Option ContextError) :
    Option (Except OutcomeError InstanceChange) × LocalInstanceWatch :=
  match context, w.queue, w.terminal with
  | some err, _, _ => (some (.error (newCanceledError err)), w)
  | none, change :: rest, _ => (some (.ok change), w.pop change rest)
  | none, [], some err => (some (.error err), w)
  | none, [], none => (none, w)

end LocalInstanceWatch

/-! ## Calls of `Next` -/

inductive NextPhase where
  | entering
  | looping
  | waiting (signal : Nat)
  | leaving (result : Except OutcomeError InstanceChange)
  | returned (result : Except OutcomeError InstanceChange)

/-- A call with what its context reports. -/
structure NextCall where
  context : Option ContextError
  phase : NextPhase

inductive NextEvent where
  | quiet
  | settled (result : Except OutcomeError InstanceChange)
  | returned (result : Except OutcomeError InstanceChange)

namespace NextCall

/-- A call without a context returns at once. -/
def start (hasContext : Bool) : NextCall :=
  ⟨none, if hasContext then .entering else .returned (.error (newInvalidError "next_context"))⟩

/-- What the call may do next; nothing if it has returned or has to wait.
Where both channels are ready the call may go on with either. -/
def steps (c : NextCall) (w : LocalInstanceWatch) :
    List (NextEvent × NextCall × LocalInstanceWatch) :=
  match c.phase with
  | .entering =>
      if w.nextActive then
        let result := .error (newInvalidError "concurrent_next")
        [(.returned result, { c with phase := .returned result }, w)]
      else [(.quiet, { c with phase := .looping }, { w with nextActive := true })]
  | .looping =>
      match w.poll c.context with
      | (some result, w') => [(.settled result, { c with phase := .leaving result }, w')]
      | (none, _) => [(.quiet, { c with phase := .waiting w.signal }, w)]
  | .waiting signal =>
      (match c.context with
        | some err =>
            let result := .error (newCanceledError err)
            [(.settled result, { c with phase := .leaving result }, w)]
        | none => [])
        ++ if signal < w.signal then [(.quiet, { c with phase := .looping }, w)] else []
  | .leaving result =>
      [(.returned result, { c with phase := .returned result }, { w with nextActive := false })]
  | .returned _ => []

/-- Between marking itself as active and leaving. -/
def Inside (c : NextCall) : Bool :=
  match c.phase with
  | .looping | .waiting _ | .leaving _ => true
  | .entering | .returned _ => false

end NextCall

/-! ## Runs -/

structure WatchSystem where
  watch : LocalInstanceWatch
  calls : List NextCall

inductive WatchEvent where
  | published (change : InstanceChange) (result : Except OutcomeError Unit)
  | terminated (err : ProviderError)
  | closed
  | started (hasContext : Bool)
  | contextEnded (call : Nat) (err : ContextError)
  | stepped (call : Nat) (event : NextEvent)

inductive WatchMoves [UnicodeCase] : WatchSystem → WatchEvent → WatchSystem → Prop
  | publish (s : WatchSystem) (change : InstanceChange) :
      WatchMoves s (.published change (s.watch.publish change).1)
        { s with watch := (s.watch.publish change).2 }
  | terminate (s : WatchSystem) (err : ProviderError) :
      WatchMoves s (.terminated err) { s with watch := s.watch.terminate err }
  | close (s : WatchSystem) : WatchMoves s .closed { s with watch := s.watch.close }
  | start (s : WatchSystem) (hasContext : Bool) :
      WatchMoves s (.started hasContext) { s with calls := s.calls ++ [.start hasContext] }
  | endContext (s : WatchSystem) {i : Nat} {c : NextCall} (err : ContextError) :
      s.calls[i]? = some c → c.context = none →
        WatchMoves s (.contextEnded i err)
          { s with calls := s.calls.set i { c with context := some err } }
  | step (s : WatchSystem) {i : Nat} {c c' : NextCall} {event : NextEvent}
      {w' : LocalInstanceWatch} :
      s.calls[i]? = some c → (event, c', w') ∈ c.steps s.watch →
        WatchMoves s (.stepped i event) ⟨w', s.calls.set i c'⟩

abbrev WatchRun [UnicodeCase] : WatchSystem → List WatchEvent → WatchSystem → Prop :=
  Run WatchMoves

/-- Only what the end of a context is reported as wraps it. -/
def isCanceled : Except OutcomeError InstanceChange → Bool
  | .error err => err.wrapped.isSome
  | .ok _ => false

namespace WatchEvent

def accepted : WatchEvent → Option InstanceChange
  | published change (.ok ()) => some change
  | _ => none

def settled : WatchEvent → Option (Except OutcomeError InstanceChange)
  | stepped _ (.settled result) => some result
  | _ => none

def returned : WatchEvent → Option (Except OutcomeError InstanceChange)
  | stepped _ (.returned result) => some result
  | _ => none

/-- The result of a call whose context has not ended. -/
def liveResult (e : WatchEvent) : Option (Except OutcomeError InstanceChange) :=
  e.settled.filter fun result => !isCanceled result

end WatchEvent

/-- The changes whose `Publish` returned `nil`. -/
def acceptedChanges (trace : List WatchEvent) : List InstanceChange :=
  trace.filterMap WatchEvent.accepted

/-- The results of `Next`, in the order in which they were decided. -/
def settledResults (trace : List WatchEvent) : List (Except OutcomeError InstanceChange) :=
  trace.filterMap WatchEvent.settled

def returnedResults (trace : List WatchEvent) : List (Except OutcomeError InstanceChange) :=
  trace.filterMap WatchEvent.returned

def liveResults (trace : List WatchEvent) : List (Except OutcomeError InstanceChange) :=
  trace.filterMap WatchEvent.liveResult

def changesOf (results : List (Except OutcomeError InstanceChange)) : List InstanceChange :=
  results.filterMap Except.toOption

/-! ## What a move does to the watch -/

inductive Effect where
  | kept
  | accepted (change : InstanceChange)
  | latched (err : OutcomeError)
  | took (change : InstanceChange)

namespace LocalInstanceWatch

inductive Affects (w : LocalInstanceWatch) : Effect → LocalInstanceWatch → Prop
  | kept (active : Bool) : Affects w .kept { w with nextActive := active }
  | accepted {change : InstanceChange} : w.targetDeletedPending = false → w.terminal = none →
      w.queue.length < w.capacity → Affects w (.accepted change) (w.push change)
  | latched {err : OutcomeError} : w.targetDeletedPending = false → w.terminal = none →
      Affects w (.latched err) (w.latch err)
  | took {change : InstanceChange} {rest : List InstanceChange} : w.queue = change :: rest →
      Affects w (.took change) (w.pop change rest)

theorem affects_self (w : LocalInstanceWatch) : w.Affects .kept w := .kept w.nextActive

theorem terminateWith_affects (w : LocalInstanceWatch) (err : OutcomeError) :
    w.Affects .kept (w.terminateWith err) ∨ w.Affects (.latched err) (w.terminateWith err) := by
  unfold terminateWith
  split
  · exact .inl w.affects_self
  · rename_i hopen
    simp only [not_or, not_not, Bool.not_eq_true] at hopen
    exact .inr (.latched hopen.2 hopen.1)

variable [UnicodeCase]

/-- The four ways in which a change may be published. -/
theorem publish_cases (w : LocalInstanceWatch) (change : InstanceChange) :
    (∃ err, w.publish change = (.error err, w)
        ∧ (change.validate = .ok () → w.targetDeletedPending = true ∧ err = errClosed
          ∨ w.targetDeletedPending = false ∧ w.terminal = some err))
      ∨ (w.publish change = (.error deliveryOverflow, w.latch deliveryOverflow)
        ∧ w.targetDeletedPending = false ∧ w.terminal = none ∧ w.capacity ≤ w.queue.length)
      ∨ (w.publish change = (.ok (), w.push change) ∧ w.targetDeletedPending = false
        ∧ w.terminal = none ∧ w.queue.length < w.capacity) := by
  unfold publish
  cases hvalid : change.validate with
  | error err => exact .inl ⟨err, rfl, nofun⟩
  | ok =>
      cases hpending : w.targetDeletedPending with
      | true => exact .inl ⟨errClosed, rfl, fun _ => .inl ⟨rfl, rfl⟩⟩
      | false =>
          cases hterminal : w.terminal with
          | some err => exact .inl ⟨err, rfl, fun _ => .inr ⟨rfl, rfl⟩⟩
          | none =>
              by_cases hfull : w.capacity ≤ w.queue.length
              · exact .inr (.inl ⟨by simp [hfull], rfl, rfl, hfull⟩)
              · exact .inr (.inr ⟨by simp [hfull], rfl, rfl, by omega⟩)

end LocalInstanceWatch

open LocalInstanceWatch

/-- What a look at the watch does and says. -/
theorem LocalInstanceWatch.poll_cases (w : LocalInstanceWatch) (context : Option ContextError) :
    (∃ err, w.poll context = (some (.error err), w)
        ∧ ((∃ e, context = some e ∧ err = newCanceledError e)
          ∨ context = none ∧ w.queue = [] ∧ w.terminal = some err))
      ∨ (∃ change rest, w.poll context = (some (.ok change), w.pop change rest)
        ∧ context = none ∧ w.queue = change :: rest)
      ∨ (w.poll context = (none, w) ∧ context = none ∧ w.queue = [] ∧ w.terminal = none) := by
  cases context with
  | some e => exact .inl ⟨_, rfl, .inl ⟨e, rfl, rfl⟩⟩
  | none =>
      cases hqueue : w.queue with
      | cons change rest => exact .inr (.inl ⟨change, rest, by simp [poll, hqueue], rfl, rfl⟩)
      | nil =>
          cases hterminal : w.terminal with
          | some err => exact .inl ⟨err, by simp [poll, hqueue, hterminal], .inr ⟨rfl, rfl, rfl⟩⟩
          | none => exact .inr (.inr ⟨by simp [poll, hqueue, hterminal], rfl, rfl, rfl⟩)

/-- What a call may do, with what it sees. -/
inductive NextCall.Steps : NextCall → LocalInstanceWatch → NextEvent → NextCall →
    LocalInstanceWatch → Prop
  | refused {context : Option ContextError} {w : LocalInstanceWatch}
      {result : Except OutcomeError InstanceChange} : w.nextActive = true →
      result.toOption = none →
      Steps ⟨context, .entering⟩ w (.returned result) ⟨context, .returned result⟩ w
  | entered {context : Option ContextError} {w : LocalInstanceWatch} : w.nextActive = false →
      Steps ⟨context, .entering⟩ w .quiet ⟨context, .looping⟩ { w with nextActive := true }
  | failed {context : Option ContextError} {w : LocalInstanceWatch} {err : OutcomeError} :
      (∃ e, context = some e ∧ err = newCanceledError e)
        ∨ context = none ∧ w.queue = [] ∧ w.terminal = some err →
      Steps ⟨context, .looping⟩ w (.settled (.error err)) ⟨context, .leaving (.error err)⟩ w
  | took {context : Option ContextError} {w : LocalInstanceWatch} {change : InstanceChange}
      {rest : List InstanceChange} : w.queue = change :: rest →
      Steps ⟨context, .looping⟩ w (.settled (.ok change)) ⟨context, .leaving (.ok change)⟩
        (w.pop change rest)
  | waits {context : Option ContextError} {w : LocalInstanceWatch} : w.queue = [] →
      w.terminal = none → Steps ⟨context, .looping⟩ w .quiet ⟨context, .waiting w.signal⟩ w
  | canceled {e : ContextError} {w : LocalInstanceWatch} {signal : Nat} :
      Steps ⟨some e, .waiting signal⟩ w (.settled (.error (newCanceledError e)))
        ⟨some e, .leaving (.error (newCanceledError e))⟩ w
  | woken {context : Option ContextError} {w : LocalInstanceWatch} {signal : Nat} :
      signal < w.signal → Steps ⟨context, .waiting signal⟩ w .quiet ⟨context, .looping⟩ w
  | left {context : Option ContextError} {w : LocalInstanceWatch}
      {result : Except OutcomeError InstanceChange} :
      Steps ⟨context, .leaving result⟩ w (.returned result) ⟨context, .returned result⟩
        { w with nextActive := false }

theorem NextCall.steps_of_mem {c c' : NextCall} {w w' : LocalInstanceWatch} {event : NextEvent}
    (h : (event, c', w') ∈ c.steps w) : Steps c w event c' w' := by
  obtain ⟨context, phase⟩ := c
  cases phase with
  | entering =>
      unfold steps at h
      cases hactive : w.nextActive <;> simp [hactive] at h <;> obtain ⟨rfl, rfl, rfl⟩ := h
      · exact .entered hactive
      · exact .refused hactive rfl
  | looping =>
      unfold steps at h
      rcases w.poll_cases context with ⟨err, hpoll, hwhy⟩ | ⟨change, rest, hpoll, -, hqueue⟩ |
        ⟨hpoll, -, hqueue, hterminal⟩ <;> simp [hpoll] at h <;> obtain ⟨rfl, rfl, rfl⟩ := h
      · exact .failed hwhy
      · exact .took hqueue
      · exact .waits hqueue hterminal
  | waiting signal =>
      unfold steps at h
      rcases List.mem_append.mp h with h | h
      · cases context with
        | none => simp at h
        | some e =>
            simp at h
            obtain ⟨rfl, rfl, rfl⟩ := h
            exact .canceled
      · split at h
        · simp at h
          obtain ⟨rfl, rfl, rfl⟩ := h
          exact .woken ‹_›
        · simp at h
  | leaving result =>
      simp [steps] at h
      obtain ⟨rfl, rfl, rfl⟩ := h
      exact .left
  | returned result => simp [steps] at h

namespace Effect

def acceptedChange : Effect → Option InstanceChange
  | accepted change => some change
  | _ => none

def takenChange : Effect → Option InstanceChange
  | took change => some change
  | _ => none

end Effect

theorem NextCall.Steps.effect {c c' : NextCall} {w w' : LocalInstanceWatch} {event : NextEvent}
    (h : Steps c w event c' w') (i : Nat) :
    ∃ eff : Effect, w.Affects eff w' ∧ eff.acceptedChange = none
      ∧ (WatchEvent.stepped i event).settled.bind Except.toOption = eff.takenChange := by
  cases h with
  | refused hactive herr => exact ⟨.kept, w.affects_self, rfl, rfl⟩
  | entered hactive => exact ⟨.kept, .kept true, rfl, rfl⟩
  | failed hwhy => exact ⟨.kept, w.affects_self, rfl, rfl⟩
  | took hqueue => exact ⟨.took _, .took hqueue, rfl, rfl⟩
  | waits hqueue hterminal => exact ⟨.kept, w.affects_self, rfl, rfl⟩
  | canceled => exact ⟨.kept, w.affects_self, rfl, rfl⟩
  | woken hsignal => exact ⟨.kept, w.affects_self, rfl, rfl⟩
  | left => exact ⟨.kept, .kept false, rfl, rfl⟩

theorem WatchMoves.effect [UnicodeCase] {s s' : WatchSystem} {e : WatchEvent}
    (h : WatchMoves s e s') :
    ∃ eff : Effect, s.watch.Affects eff s'.watch ∧ e.accepted = eff.acceptedChange
      ∧ e.settled.bind Except.toOption = eff.takenChange := by
  cases h with
  | publish change =>
      rcases s.watch.publish_cases change with ⟨err, hpublish, -⟩ |
        ⟨hpublish, hpending, hterminal, -⟩ | ⟨hpublish, hpending, hterminal, hroom⟩ <;>
        rw [hpublish]
      · exact ⟨.kept, s.watch.affects_self, rfl, rfl⟩
      · exact ⟨.latched _, .latched hpending hterminal, rfl, rfl⟩
      · exact ⟨.accepted change, .accepted hpending hterminal hroom, rfl, rfl⟩
  | terminate err =>
      rcases s.watch.terminateWith_affects (typedTerminal err) with h | h
      · exact ⟨_, h, rfl, rfl⟩
      · exact ⟨_, h, rfl, rfl⟩
  | close =>
      rcases s.watch.terminateWith_affects errClosed with h | h
      · exact ⟨_, h, rfl, rfl⟩
      · exact ⟨_, h, rfl, rfl⟩
  | start hasContext => exact ⟨.kept, s.watch.affects_self, rfl, rfl⟩
  | endContext err hcall hlive => exact ⟨.kept, s.watch.affects_self, rfl, rfl⟩
  | step hcall hstep =>
      obtain ⟨eff, haffects, haccepted, htaken⟩ := (NextCall.steps_of_mem hstep).effect _
      exact ⟨eff, haffects, haccepted.symm, htaken⟩

/-! ## The watch by itself -/

namespace LocalInstanceWatch

structure Inv (w : LocalInstanceWatch) : Prop where
  bounded : w.queue.length ≤ w.capacity
  pending : w.targetDeletedPending = true ↔
    ∃ last, w.queue.getLast? = some last ∧ last.kind = .targetDeleted
  latched : w.terminal ≠ none → w.queue = []

variable {w w' : LocalInstanceWatch} {eff : Effect}

theorem Inv.of_terminal (h : w.Inv) (hterminal : w.terminal ≠ none) :
    w.targetDeletedPending = false := by
  rw [Bool.eq_false_iff, ne_eq, h.pending, h.latched hterminal]
  simp

theorem Affects.capacity (h : w.Affects eff w') : w'.capacity = w.capacity := by
  cases h with
  | kept | accepted | latched => rfl
  | took hqueue => unfold pop; dsimp only; split <;> rfl

/-- Taking the change that the deletion waits for closes the watch. -/
theorem Inv.pop (h : w.Inv) {change : InstanceChange} {rest : List InstanceChange}
    (hqueue : w.queue = change :: rest) : (w.pop change rest).Inv := by
  have hterminal : w.terminal = none := by
    by_contra hlatched
    rw [h.latched hlatched] at hqueue
    cases hqueue
  have hlength := h.bounded
  rw [hqueue, List.length_cons] at hlength
  unfold LocalInstanceWatch.pop
  dsimp only
  split
  · rename_i hlast
    obtain ⟨-, -, rfl⟩ := hlast
    exact ⟨by simp [notify], by simp [notify], by simp [notify]⟩
  · rename_i hother
    refine ⟨by simpa using by omega, ?_, fun hlatched => absurd hterminal hlatched⟩
    have hpending := h.pending
    rw [hqueue] at hpending
    cases rest with
    | nil =>
        simp only [List.getLast?_singleton, Option.some.injEq] at hpending
        refine iff_of_false (fun hp => hother ⟨?_, hp, rfl⟩) (by simp)
        obtain ⟨last, rfl, hkind⟩ := hpending.mp hp
        exact hkind
    | cons next rest => rwa [List.getLast?_cons_cons] at hpending

/-- The queue stays within its capacity and is empty once an outcome is
latched. -/
theorem Affects.inv (h : w.Affects eff w') (hinv : w.Inv) : w'.Inv := by
  cases h with
  | kept active => exact ⟨hinv.bounded, hinv.pending, hinv.latched⟩
  | @accepted change hpending hterminal hroom =>
      refine ⟨?_, by simp [push, notify, hpending], fun hlatched => absurd hterminal hlatched⟩
      simp only [push, notify, List.length_append, List.length_singleton]
      omega
  | latched hpending hterminal =>
      exact ⟨by simp [latch, notify], by simp [latch, notify, hpending], fun _ => rfl⟩
  | took hqueue => exact hinv.pop hqueue

/-- What is latched stays. -/
theorem Affects.terminal (h : w.Affects eff w') (hinv : w.Inv) {err : OutcomeError}
    (hterminal : w.terminal = some err) : w'.terminal = some err ∧ eff.takenChange = none := by
  cases h with
  | kept active => exact ⟨hterminal, rfl⟩
  | accepted _ hnone _ => rw [hterminal] at hnone; cases hnone
  | latched _ hnone => rw [hterminal] at hnone; cases hnone
  | took hqueue =>
      rw [hinv.latched (by simp [hterminal])] at hqueue
      cases hqueue

/-- A deletion was accepted: it is the last in the queue, or was taken. -/
def Sealed (w : LocalInstanceWatch) : Prop :=
  w.targetDeletedPending = true ∨ w.terminal = some errClosed

theorem Affects.sealed (h : w.Affects eff w') (hsealed : w.Sealed) : w'.Sealed := by
  cases h with
  | kept active => exact hsealed
  | accepted hpending hterminal _ => simp [Sealed, hpending, hterminal] at hsealed
  | latched hpending hterminal => simp [Sealed, hpending, hterminal] at hsealed
  | took hqueue =>
      unfold pop
      dsimp only
      split
      · exact .inr rfl
      · exact hsealed

theorem Sealed.terminateWith (h : w.Sealed) (err : OutcomeError) : w.terminateWith err = w := by
  refine if_pos (h.symm.imp_left fun hclosed => ?_)
  simp [hclosed]

theorem Sealed.publish [UnicodeCase] (h : w.Sealed) (change : InstanceChange) :
    ∃ err, w.publish change = (.error err, w) ∧ (change.validate = .ok () → err = errClosed) := by
  rcases w.publish_cases change with ⟨err, hpublish, hwhy⟩ | ⟨-, hpending, hterminal, -⟩ |
    ⟨-, hpending, hterminal, -⟩
  · refine ⟨err, hpublish, fun hvalid => ?_⟩
    rcases hwhy hvalid with ⟨-, herr⟩ | ⟨hpending, hterminal⟩
    · exact herr
    · simpa [Sealed, hpending, hterminal] using h
  · simp [Sealed, hpending, hterminal] at h
  · simp [Sealed, hpending, hterminal] at h

/-- Nothing is queued or latched without a new signal. -/
theorem Affects.signal (h : w.Affects eff w') :
    w.signal < w'.signal ∨ w'.signal = w.signal
      ∧ (w.queue = [] → w.terminal = none → w'.queue = [] ∧ w'.terminal = none) := by
  cases h with
  | kept active => exact .inr ⟨rfl, fun hqueue hterminal => ⟨hqueue, hterminal⟩⟩
  | accepted => exact .inl (Nat.lt_succ_self _)
  | latched => exact .inl (Nat.lt_succ_self _)
  | took hqueue =>
      unfold pop
      dsimp only
      split
      · exact .inl (Nat.lt_succ_self _)
      · exact .inr ⟨rfl, fun hnil => by rw [hnil] at hqueue; cases hqueue⟩

end LocalInstanceWatch

/-! ## The watch and its callers -/

namespace NextCall

/-- The change that the call has taken and not yet returned. -/
def held (c : NextCall) : Option InstanceChange :=
  match c.phase with
  | .leaving result => result.toOption
  | _ => none

variable {c c' : NextCall} {w w' : LocalInstanceWatch} {event : NextEvent}

theorem held_eq_none (h : c.Inside = false) : c.held = none := by
  obtain ⟨context, phase⟩ := c
  cases phase <;> simp_all [Inside, held]

/-- A channel that the call still waits for is open for a reason. -/
def Waits (c : NextCall) (w : LocalInstanceWatch) : Prop :=
  ∀ signal, c.phase = .waiting signal →
    signal ≤ w.signal ∧ (signal = w.signal → w.queue = [] ∧ w.terminal = none)

theorem Waits.affects {eff : Effect} (h : c.Waits w) (haffects : w.Affects eff w') :
    c.Waits w' := by
  intro signal hphase
  obtain ⟨hle, hidle⟩ := h signal hphase
  rcases haffects.signal with hlt | ⟨heq, hkept⟩
  · exact ⟨by omega, fun heq => by omega⟩
  · rw [heq]
    refine ⟨hle, fun hcurrent => ?_⟩
    obtain ⟨hqueue, hterminal⟩ := hidle hcurrent
    exact hkept hqueue hterminal

theorem Steps.waits_after (h : Steps c w event c' w') : c'.Waits w' := by
  cases h with
  | waits hqueue hterminal =>
      intro signal hphase
      cases hphase
      exact ⟨Nat.le_refl _, fun _ => ⟨hqueue, hterminal⟩⟩
  | refused | entered | failed | took | canceled | woken | left => nofun

/-- Entering and leaving are marked. -/
theorem Steps.inside (h : Steps c w event c' w') :
    c'.Inside = c.Inside ∧ w'.nextActive = w.nextActive
      ∨ c.Inside = false ∧ w.nextActive = false ∧ c'.Inside = true ∧ w'.nextActive = true
      ∨ c.Inside = true ∧ c'.Inside = false ∧ w'.nextActive = false := by
  cases h with
  | entered hactive => exact .inr (.inl ⟨rfl, hactive, rfl, rfl⟩)
  | left => exact .inr (.inr ⟨rfl, rfl, rfl⟩)
  | took hqueue =>
      refine .inl ⟨rfl, ?_⟩
      unfold LocalInstanceWatch.pop
      dsimp only
      split <;> rfl
  | refused | failed | waits | canceled | woken => exact .inl ⟨rfl, rfl⟩

/-- What is held is what was settled and not returned. -/
theorem Steps.held (h : Steps c w event c' w') (i : Nat) :
    (c.Inside = true ∧
        c.held.toList ++ ((WatchEvent.stepped i event).settled.bind Except.toOption).toList =
          ((WatchEvent.stepped i event).returned.bind Except.toOption).toList ++ c'.held.toList)
      ∨ ((WatchEvent.stepped i event).settled.bind Except.toOption = none
        ∧ (WatchEvent.stepped i event).returned.bind Except.toOption = none
        ∧ c'.held = c.held) := by
  cases h with
  | refused hactive herr => exact .inr ⟨rfl, herr, rfl⟩
  | entered => exact .inr ⟨rfl, rfl, rfl⟩
  | failed | took | waits | canceled | woken => exact .inl ⟨rfl, rfl⟩
  | left => exact .inl ⟨rfl, rfl⟩

end NextCall

namespace WatchSystem

structure Inv (s : WatchSystem) : Prop where
  watch : s.watch.Inv
  alone : s.calls.countP NextCall.Inside = s.watch.nextActive.toNat
  waits : ∀ c ∈ s.calls, c.Waits s.watch

def heldChanges (s : WatchSystem) : List InstanceChange :=
  s.calls.flatMap fun c => c.held.toList

end WatchSystem

namespace LocalInstanceWatch

@[simp]
theorem terminateWith_nextActive (w : LocalInstanceWatch) (err : OutcomeError) :
    (w.terminateWith err).nextActive = w.nextActive := by
  unfold terminateWith
  split <;> rfl

@[simp]
theorem publish_nextActive [UnicodeCase] (w : LocalInstanceWatch) (change : InstanceChange) :
    (w.publish change).2.nextActive = w.nextActive := by
  rcases w.publish_cases change with ⟨err, hpublish, -⟩ | ⟨hpublish, -⟩ | ⟨hpublish, -⟩ <;>
    rw [hpublish] <;> rfl

end LocalInstanceWatch

namespace WatchSystem

/-- A call that has moved is put back. -/
theorem Inv.set {s : WatchSystem} (h : s.Inv) {i : Nat} {c c' : NextCall}
    (hcall : s.calls[i]? = some c) {w' : LocalInstanceWatch} {eff : Effect}
    (haffects : s.watch.Affects eff w') (hwaits : c'.Waits w')
    (halone : ∀ n, n + c.Inside.toNat = s.watch.nextActive.toNat →
      n + c'.Inside.toNat = w'.nextActive.toNat) :
    (⟨w', s.calls.set i c'⟩ : WatchSystem).Inv := by
  obtain ⟨l₁, l₂, hcalls, hset⟩ := exists_set_eq hcall
  have hcount : ∀ d : NextCall, (l₁ ++ d :: l₂).countP NextCall.Inside =
      l₁.countP NextCall.Inside + l₂.countP NextCall.Inside + d.Inside.toNat := by
    intro d
    rw [List.countP_append, List.countP_cons, Bool.toNat, ← Nat.add_assoc]
    cases d.Inside <;> rfl
  refine ⟨haffects.inv h.watch, ?_, fun d hd => ?_⟩
  · have hbefore := h.alone
    rw [hcalls, hcount] at hbefore
    rw [hset, hcount]
    exact halone _ hbefore
  · rw [hset] at hd
    simp only [List.mem_append, List.mem_cons] at hd
    have hothers : d ∈ l₁ ∨ d ∈ l₂ → d.Waits w' := fun hmem =>
      (h.waits d (by rw [hcalls]; simp; tauto)).affects haffects
    rcases hd with hd | rfl | hd
    · exact hothers (.inl hd)
    · exact hwaits
    · exact hothers (.inr hd)

end WatchSystem

section Moves

variable [UnicodeCase] {s s' : WatchSystem} {e : WatchEvent}

/-- At most one call of `Next` stays active. -/
theorem WatchMoves.inv (h : WatchMoves s e s') (hinv : s.Inv) : s'.Inv := by
  obtain ⟨eff, haffects, -, -⟩ := h.effect
  -- publishing and terminating leave the callers alone
  have hwatch : s'.calls = s.calls → s'.watch.nextActive = s.watch.nextActive → s'.Inv := by
    intro hcalls hactive
    refine ⟨haffects.inv hinv.watch, by rw [hcalls, hactive]; exact hinv.alone, ?_⟩
    rw [hcalls]
    exact fun c hc => (hinv.waits c hc).affects haffects
  cases h with
  | publish change => exact hwatch rfl (s.watch.publish_nextActive change)
  | terminate err => exact hwatch rfl (s.watch.terminateWith_nextActive _)
  | close => exact hwatch rfl (s.watch.terminateWith_nextActive _)
  | start hasContext =>
      refine ⟨hinv.watch, ?_, fun c hc => ?_⟩
      · rw [List.countP_append, hinv.alone]
        cases hasContext <;> rfl
      · rcases List.mem_append.mp hc with hc | hc
        · exact hinv.waits c hc
        · rw [List.mem_singleton.mp hc]
          cases hasContext <;> nofun
  | @endContext i c err hcall hlive =>
      have hc := hinv.waits c (List.mem_of_getElem? hcall)
      exact hinv.set hcall (affects_self _) hc fun n hn => hn
  | step hcall hstep =>
      have hsteps := NextCall.steps_of_mem hstep
      refine hinv.set hcall haffects hsteps.waits_after fun n hn => ?_
      rcases hsteps.inside with ⟨hinside, hactive⟩ | ⟨hout, hidle, hin, hactive⟩ |
        ⟨hin, hout, hactive⟩
      · rwa [hinside, hactive]
      · rw [hout, hidle] at hn
        rw [hin, hactive]
        simpa using hn
      · rw [hin] at hn
        rw [hout, hactive]
        have hle := Bool.toNat_le s.watch.nextActive
        simp only [Bool.toNat_true, Bool.toNat_false] at hn ⊢
        omega

/-- What is held is what was settled and not returned, for all callers
together: at most one of them is inside. -/
theorem WatchMoves.held (h : WatchMoves s e s') (hinv : s.Inv) :
    s.heldChanges ++ (e.settled.bind Except.toOption).toList =
      (e.returned.bind Except.toOption).toList ++ s'.heldChanges := by
  cases h with
  | publish | terminate | close => exact List.append_nil _
  | start hasContext =>
      cases hasContext <;>
        simp [WatchSystem.heldChanges, WatchEvent.settled, WatchEvent.returned, NextCall.start,
          NextCall.held]
  | @endContext i c err hcall hlive =>
      obtain ⟨l₁, l₂, hcalls, hset⟩ := exists_set_eq hcall
      simp only [WatchSystem.heldChanges, hset]
      rw [hcalls]
      simp [WatchEvent.settled, WatchEvent.returned, NextCall.held]
  | @step i c c' event w' hcall hstep =>
      obtain ⟨l₁, l₂, hcalls, hset⟩ := exists_set_eq hcall
      simp only [WatchSystem.heldChanges, hset]
      rcases (NextCall.steps_of_mem hstep).held i with ⟨hinside, hheld⟩ | ⟨hset, hret, hheld⟩
      · -- no other caller is inside, so no other holds a change
        have halone := hinv.alone
        have hle := Bool.toNat_le s.watch.nextActive
        rw [hcalls, List.countP_append, List.countP_cons_of_pos hinside] at halone
        have hothers : ∀ l : List NextCall, l.countP NextCall.Inside = 0 →
            l.flatMap (fun c => c.held.toList) = [] := fun l hzero =>
          List.flatMap_eq_nil_iff.mpr fun d hd => by
            rw [NextCall.held_eq_none (Bool.eq_false_iff.mpr (List.countP_eq_zero.mp hzero d hd))]
            rfl
        rw [hcalls]
        simpa [hothers l₁ (by omega), hothers l₂ (by omega)] using hheld
      · rw [hcalls, hset, hret]
        simp [hheld]

end Moves

end Registry

end Nekiro
