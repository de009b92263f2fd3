import Nekiro.InstanceWatch

/-!
# What a watch delivers

The changes that were accepted are, in this order, those that `Next` has
taken, those that are queued, and those that were dropped with the queue
(`Delivered`); every move keeps that. What is latched stays
(`latched_run`), and after a deletion there is only one thing that calls of
`Next` can see (`sealed_run`). `watch_delivery` puts them together; a full
queue that ends with a deletion is the one in which no overflow is latched
(`Deleted.not_overflow`).
-/

namespace Nekiro

open Json Guard Strings

namespace Registry

open LocalInstanceWatch

/-! ## What runs deliver -/

section Events

variable (trace : List WatchEvent) (e : WatchEvent)

@[simp]
theorem acceptedChanges_concat :
    acceptedChanges (trace ++ [e]) = acceptedChanges trace ++ e.accepted.toList := by
  simp only [acceptedChanges, List.filterMap_append]
  cases h : e.accepted <;> simp [h]

theorem settledResults_concat :
    settledResults (trace ++ [e]) = settledResults trace ++ e.settled.toList := by
  simp only [settledResults, List.filterMap_append]
  cases h : e.settled <;> simp [h]

theorem liveResults_concat :
    liveResults (trace ++ [e]) = liveResults trace ++ e.liveResult.toList := by
  simp only [liveResults, List.filterMap_append]
  cases h : e.liveResult <;> simp [h]

theorem changesOf_append (results : List (Except OutcomeError InstanceChange))
    (last : Option (Except OutcomeError InstanceChange)) :
    changesOf (results ++ last.toList) = changesOf results
      ++ (last.bind Except.toOption).toList := by
  rw [changesOf, List.filterMap_append, changesOf]
  rcases last with - | (err | change) <;> rfl

@[simp]
theorem changesOf_settledResults_concat :
    changesOf (settledResults (trace ++ [e])) =
      changesOf (settledResults trace) ++ (e.settled.bind Except.toOption).toList := by
  rw [settledResults_concat, changesOf_append]

@[simp]
theorem changesOf_returnedResults_concat :
    changesOf (returnedResults (trace ++ [e])) =
      changesOf (returnedResults trace) ++ (e.returned.bind Except.toOption).toList := by
  rw [← changesOf_append, returnedResults, List.filterMap_append, returnedResults]
  cases h : e.returned <;> simp [h]

end Events

theorem LocalInstanceWatch.pop_queue (w : LocalInstanceWatch) (change : InstanceChange)
    (rest : List InstanceChange) : (w.pop change rest).queue = rest := by
  unfold pop
  dsimp only
  split <;> rfl

/-- The changes that were accepted are those that were taken, those in the
queue, and those that were dropped with it. -/
structure Delivered (trace : List WatchEvent) (s : WatchSystem) : Prop where
  inv : s.Inv
  accepted : ∃ dropped,
    acceptedChanges trace = changesOf (settledResults trace) ++ s.watch.queue ++ dropped
      ∧ (s.watch.terminal = none → dropped = [])
  returned : changesOf (settledResults trace) = changesOf (returnedResults trace) ++ s.heldChanges
  deleted : (∃ change ∈ acceptedChanges trace, change.kind = .targetDeleted) → s.watch.Sealed

variable {w w' : LocalInstanceWatch} {queue : List InstanceChange} {change : InstanceChange}
  {c : NextCall}

section Runs

variable [UnicodeCase] {s s' : WatchSystem} {trace trace' : List WatchEvent} {e : WatchEvent}

/-- A step keeps the account of the accepted changes. -/
theorem Delivered.move (h : Delivered trace s) (hmove : WatchMoves s e s') :
    Delivered (trace ++ [e]) s' := by
  obtain ⟨eff, haffects, haccepted, htaken⟩ := hmove.effect
  obtain ⟨dropped, hall, hnone⟩ := h.accepted
  have hheld := hmove.held h.inv
  refine ⟨hmove.inv h.inv, ?_, ?_, ?_⟩
  · rw [acceptedChanges_concat, changesOf_settledResults_concat, haccepted, htaken, hall]
    generalize s'.watch = w' at haffects
    cases haffects with
    | kept active => exact ⟨dropped, by simp [Effect.acceptedChange, Effect.takenChange], hnone⟩
    | @accepted change _ hterminal _ =>
        refine ⟨[], ?_, fun _ => rfl⟩
        simp [Effect.acceptedChange, Effect.takenChange, hnone hterminal, push, notify]
    | latched =>
        refine ⟨s.watch.queue ++ dropped, ?_, by simp [latch, notify]⟩
        simp [Effect.acceptedChange, Effect.takenChange, latch, notify]
    | @took change rest hqueue =>
        have hterminal : s.watch.terminal = none := by
          by_contra hlatched
          rw [h.inv.watch.latched hlatched] at hqueue
          cases hqueue
        refine ⟨dropped, ?_, fun _ => hnone hterminal⟩
        simp [Effect.acceptedChange, Effect.takenChange, pop_queue, hqueue]
  · rw [changesOf_settledResults_concat, changesOf_returnedResults_concat, h.returned,
      List.append_assoc, hheld, List.append_assoc]
  · rw [acceptedChanges_concat, haccepted]
    rintro ⟨change, hmem, hkind⟩
    rcases List.mem_append.mp hmem with hmem | hmem
    · exact haffects.sealed (h.deleted ⟨change, hmem, hkind⟩)
    · generalize s'.watch = w' at haffects
      cases haffects with
      | accepted =>
          cases List.mem_singleton.mp hmem
          exact .inl (by simp [push, notify, hkind])
      | kept | latched | took => simp [Effect.acceptedChange] at hmem

/-- So does a run. -/
theorem Delivered.run (h : Delivered trace s) (hrun : WatchRun s trace' s') :
    Delivered (trace ++ trace') s' := by
  refine hrun.holds (fun events s => Delivered (trace ++ events) s) ?_ (by simpa using h)
  intro events s₁ e s₂ h₁ hmove
  rw [← List.append_assoc]
  exact h₁.move hmove

omit [UnicodeCase] in
theorem delivered_new {queueCapacity : Int} (h : newInstanceWatch queueCapacity = .ok w) :
    Delivered [] ⟨w, []⟩ ∧ w.capacity = queueCapacity := by
  unfold newInstanceWatch at h
  obtain ⟨hpos, h⟩ := check_bind_ok_iff.mp h
  rw [require_ok_iff] at hpos
  cases h
  have hwatch : (⟨queueCapacity.toNat, [], none, false, false, 0⟩ : LocalInstanceWatch).Inv :=
    ⟨by simp, by simp, by simp⟩
  refine ⟨⟨⟨hwatch, rfl, by simp⟩, ⟨[], rfl, fun _ => rfl⟩, rfl, ?_⟩, Int.toNat_of_nonneg hpos.le⟩
  simp [acceptedChanges]

/-- What was latched stays, and nothing is delivered any more. -/
theorem latched_run (hinv : s.Inv) {err : OutcomeError} (hterminal : s.watch.terminal = some err)
    (hrun : WatchRun s trace s') :
    s'.Inv ∧ s'.watch.terminal = some err ∧ changesOf (settledResults trace) = [] := by
  refine hrun.holds (fun trace s => s.Inv ∧ s.watch.terminal = some err
    ∧ changesOf (settledResults trace) = []) ?_ ⟨hinv, hterminal, rfl⟩
  rintro trace s e s' ⟨hinv, hterminal, hnone⟩ hmove
  obtain ⟨eff, haffects, -, htaken⟩ := hmove.effect
  obtain ⟨hterminal', hnothing⟩ := haffects.terminal hinv.watch hterminal
  refine ⟨hmove.inv hinv, hterminal', ?_⟩
  rw [changesOf_settledResults_concat, hnone, htaken, hnothing]
  rfl

/-- The next results of a watch with this queue on which a deletion was
accepted: the changes, and then that it is closed. -/
def upcoming (queue : List InstanceChange) (n : Nat) : List (Except OutcomeError InstanceChange) :=
  (queue.take n).map .ok ++ List.replicate (n - queue.length) (.error errClosed)

omit [UnicodeCase] in
theorem upcoming_succ_of_drop {rest : List InstanceChange} {n : Nat}
    (h : queue.drop n = change :: rest) :
    upcoming queue (n + 1) = upcoming queue n ++ [.ok change] := by
  have hlt : n < queue.length := by
    by_contra hge
    rw [List.drop_eq_nil_of_le (by omega)] at h
    cases h
  rw [upcoming, upcoming, List.take_add_one, List.getElem?_eq_getElem hlt,
    Nat.sub_eq_zero_of_le hlt.le, Nat.sub_eq_zero_of_le hlt]
  rw [List.drop_eq_getElem_cons hlt] at h
  simp [(List.cons.inj h).1]

omit [UnicodeCase] in
theorem upcoming_succ_of_drop_nil {n : Nat} (h : queue.drop n = []) :
    upcoming queue (n + 1) = upcoming queue n ++ [.error errClosed] := by
  have hle := List.drop_eq_nil_iff.mp h
  rw [upcoming, upcoming, List.take_of_length_le hle, List.take_of_length_le (by omega),
    Nat.sub_add_comm hle, List.replicate_succ', List.append_assoc]

omit [UnicodeCase] in
/-- A call of `Next` on a watch on which a deletion was accepted. -/
theorem NextCall.Steps.sealed {c' : NextCall} {event : NextEvent} (h : Steps c w event c' w')
    (hinv : w.Inv) (hsealed : w.Sealed) (i : Nat) :
    ((WatchEvent.stepped i event).liveResult = none ∧ w'.queue = w.queue)
      ∨ (∃ change, (WatchEvent.stepped i event).liveResult = some (.ok change)
        ∧ w.queue = change :: w'.queue)
      ∨ ((WatchEvent.stepped i event).liveResult = some (.error errClosed) ∧ w.queue = []
        ∧ w'.queue = []) := by
  cases h with
  | refused | entered | waits | woken | left | canceled => exact .inl ⟨rfl, rfl⟩
  | failed hwhy =>
      rcases hwhy with ⟨e, -, rfl⟩ | ⟨-, hqueue, hterminal⟩
      · exact .inl ⟨rfl, rfl⟩
      · rcases hsealed with hpending | hclosed
        · rw [hinv.of_terminal (by simp [hterminal])] at hpending
          cases hpending
        · rw [hterminal, Option.some.injEq] at hclosed
          exact .inr (.inr ⟨by rw [hclosed]; rfl, hqueue, hqueue⟩)
  | took hqueue => exact .inr (.inl ⟨_, rfl, by rw [pop_queue]; exact hqueue⟩)

omit [UnicodeCase] in
/-- A call with a live context is not canceled. -/
theorem NextCall.Steps.not_canceled {c' : NextCall} {result : Except OutcomeError InstanceChange}
    (h : Steps c w (.settled result) c' w') (hinv : w.Inv) (hsealed : w.Sealed)
    (hlive : c.context = none) : isCanceled result = false := by
  cases h with
  | failed hwhy =>
      rcases hwhy with ⟨e, hcontext, -⟩ | ⟨-, hqueue, hterminal⟩
      · rw [hcontext] at hlive
        cases hlive
      · rcases hsealed with hpending | hclosed
        · rw [hinv.of_terminal (by simp [hterminal])] at hpending
          cases hpending
        · rw [hterminal, Option.some.injEq] at hclosed
          rw [hclosed]
          rfl
  | took => rfl
  | canceled => cases hlive

theorem WatchMoves.sealed (h : WatchMoves s e s') (hinv : s.Inv) (hsealed : s.watch.Sealed) :
    (e.liveResult = none ∧ s'.watch.queue = s.watch.queue)
      ∨ (∃ change, e.liveResult = some (.ok change) ∧ s.watch.queue = change :: s'.watch.queue)
      ∨ (e.liveResult = some (.error errClosed) ∧ s.watch.queue = [] ∧ s'.watch.queue = []) := by
  cases h with
  | publish change =>
      obtain ⟨err, hpublish, -⟩ := hsealed.publish change
      exact .inl ⟨rfl, by rw [hpublish]⟩
  | terminate err => exact .inl ⟨rfl, congrArg queue (hsealed.terminateWith _)⟩
  | close => exact .inl ⟨rfl, congrArg queue (hsealed.terminateWith _)⟩
  | start => exact .inl ⟨rfl, rfl⟩
  | endContext => exact .inl ⟨rfl, rfl⟩
  | step hcall hstep => exact (NextCall.steps_of_mem hstep).sealed hinv.watch hsealed _

/-- Once a deletion was accepted, the calls get the changes that are
queued, and then that the watch is closed. -/
theorem sealed_run (hinv : s.Inv) (hsealed : s.watch.Sealed) (hrun : WatchRun s trace s') :
    s'.Inv ∧ s'.watch.Sealed
      ∧ s'.watch.queue = s.watch.queue.drop (liveResults trace).length
      ∧ liveResults trace = upcoming s.watch.queue (liveResults trace).length := by
  refine hrun.holds (fun trace s' => s'.Inv ∧ s'.watch.Sealed
      ∧ s'.watch.queue = s.watch.queue.drop (liveResults trace).length
      ∧ liveResults trace = upcoming s.watch.queue (liveResults trace).length) ?_
    ⟨hinv, hsealed, rfl, by simp [liveResults, upcoming]⟩
  rintro trace s₁ e s₂ ⟨hinv, hsealed, hqueue, hresults⟩ hmove
  obtain ⟨eff, haffects, -, -⟩ := hmove.effect
  refine ⟨hmove.inv hinv, haffects.sealed hsealed, ?_⟩
  rw [liveResults_concat]
  rcases hmove.sealed hinv hsealed with ⟨hnone, hsame⟩ | ⟨change, hsome, htook⟩ |
    ⟨hsome, hnil, hnil'⟩
  · simpa [hnone, hsame] using ⟨hqueue, hresults⟩
  · rw [hqueue] at htook
    rw [hsome, Option.toList_some, List.length_append, List.length_singleton,
      upcoming_succ_of_drop htook, ← hresults]
    refine ⟨?_, rfl⟩
    rw [← List.drop_drop, htook]
    rfl
  · rw [hqueue] at hnil
    rw [hsome, Option.toList_some, List.length_append, List.length_singleton,
      upcoming_succ_of_drop_nil hnil, ← hresults]
    refine ⟨?_, rfl⟩
    rw [← List.drop_drop, hnil, hnil']
    rfl

omit [UnicodeCase] in
/-- A call that has a change or an outcome to return can go on, and does
not start to wait. -/
theorem WatchSystem.Inv.never_blocks (hinv : s.Inv) (hcall : c ∈ s.calls)
    (hready : s.watch.queue ≠ [] ∨ s.watch.terminal ≠ none) :
    ((∃ result, c.phase = .returned result) ∨ c.steps s.watch ≠ [])
      ∧ ∀ event c' w', (event, c', w') ∈ c.steps s.watch → ∀ signal,
        c'.phase ≠ .waiting signal := by
  constructor
  · have hwaits := hinv.waits c hcall
    obtain ⟨context, phase⟩ := c
    cases phase with
    | entering =>
        refine .inr ?_
        unfold NextCall.steps
        dsimp only
        split <;> simp
    | looping =>
        refine .inr ?_
        unfold NextCall.steps
        dsimp only
        split <;> simp
    | waiting signal =>
        obtain ⟨hle, hidle⟩ := hwaits signal rfl
        have hpassed : signal < s.watch.signal := by
          refine lt_of_le_of_ne hle fun heq => ?_
          obtain ⟨hqueue, hterminal⟩ := hidle heq
          exact hready.elim (absurd hqueue) (absurd hterminal)
        exact .inr (by simp [NextCall.steps, hpassed])
    | leaving result => exact .inr (by simp [NextCall.steps])
    | returned result => exact .inl ⟨result, rfl⟩
  · intro event c' w' hmem signal hphase
    generalize s.watch = w at hmem hready
    cases NextCall.steps_of_mem hmem with
    | waits hqueue hterminal => exact hready.elim (absurd hqueue) (absurd hterminal)
    | refused | entered | failed | took | canceled | woken | left => cases hphase

theorem WatchMoves.capacity (h : WatchMoves s e s') : s'.watch.capacity = s.watch.capacity := by
  obtain ⟨eff, haffects, -, -⟩ := h.effect
  exact haffects.capacity

/-- **Delivery.** What holds of a watch after every run. -/
theorem watch_delivery {queueCapacity : Int} {w : LocalInstanceWatch}
    (hnew : newInstanceWatch queueCapacity = .ok w) (hrun : WatchRun ⟨w, []⟩ trace s) :
    -- what `Next` returns is the first part of what was accepted
    (changesOf (returnedResults trace) <+: changesOf (settledResults trace)
        ∧ changesOf (settledResults trace) <+: acceptedChanges trace)
      -- the queue is bounded, and one change too many ends the watch
      ∧ ((s.watch.queue.length : Int) ≤ queueCapacity
        ∧ ∀ change, change.validate = .ok () → (s.watch.queue.length : Int) = queueCapacity →
          s.watch.targetDeletedPending = false →
            ∃ w', s.watch.publish change = (.error deliveryOverflow, w')
              ∧ w'.terminal = some deliveryOverflow ∧ w'.queue = []
              ∧ ∀ trace' s', WatchRun { s with watch := w' } trace' s' →
                changesOf (settledResults trace') = [])
      -- unless it ends with a deletion, which stays queued
      ∧ (s.watch.targetDeletedPending = true → ∀ change, change.validate = .ok () →
        s.watch.publish change = (.error errClosed, s.watch))
      -- the first outcome stays
      ∧ (∀ err, s.watch.terminal = some err → ∀ trace' s', WatchRun s trace' s' →
        s'.watch.terminal = some err
          ∧ ∀ change, change.validate = .ok () → (s'.watch.publish change).1 = .error err)
      -- a deletion is the last change
      ∧ ((∃ change ∈ acceptedChanges trace, change.kind = .targetDeleted) →
        ∀ trace' s', WatchRun s trace' s' →
          (∀ change, ∃ err, s'.watch.publish change = (.error err, s'.watch)
              ∧ (change.validate = .ok () → err = errClosed))
            ∧ (∀ err, s'.watch.terminate err = s'.watch) ∧ s'.watch.close = s'.watch
            ∧ ((∃ last, s.watch.queue.getLast? = some last ∧ last.kind = .targetDeleted)
              ∨ s.watch.queue = [] ∧ s.watch.terminal = some errClosed)
            ∧ liveResults trace' = upcoming s.watch.queue (liveResults trace').length
            ∧ ∀ c ∈ s'.calls, c.context = none → ∀ result c' w',
              (.settled result, c', w') ∈ c.steps s'.watch → isCanceled result = false)
      ∧ (s.watch.targetDeletedPending = true ↔
        ∃ last, s.watch.queue.getLast? = some last ∧ last.kind = .targetDeleted)
      -- no call waits in vain
      ∧ (s.watch.queue ≠ [] ∨ s.watch.terminal ≠ none → ∀ c ∈ s.calls,
        ((∃ result, c.phase = .returned result) ∨ c.steps s.watch ≠ [])
          ∧ ∀ event c' w', (event, c', w') ∈ c.steps s.watch →
            ∀ signal, c'.phase ≠ .waiting signal) := by
  obtain ⟨hstart, hcapacity⟩ := delivered_new hnew
  have hdelivered : Delivered trace s := hstart.run hrun
  have hinv := hdelivered.inv
  have hsame : s.watch.capacity = w.capacity :=
    hrun.keeps (fun s => s.watch.capacity = w.capacity)
      (fun _ _ _ h hmove => hmove.capacity.trans h) rfl
  refine ⟨⟨?_, ?_⟩, ⟨?_, ?_⟩, ?_, ?_, ?_, hinv.watch.pending,
    fun hready c hc => hinv.never_blocks hc hready⟩
  · rw [hdelivered.returned]
    exact List.prefix_append _ _
  · obtain ⟨dropped, hall, -⟩ := hdelivered.accepted
    rw [hall, List.append_assoc]
    exact List.prefix_append _ _
  · have hbounded := hinv.watch.bounded
    omega
  · intro change hvalid hfull hpending
    have hnone : s.watch.terminal = none := by
      by_contra hlatched
      have hnil := hinv.watch.latched hlatched
      rw [hnil] at hfull
      have hpos : 0 < queueCapacity := by
        unfold newInstanceWatch at hnew
        exact require_ok_iff.mp (check_bind_ok_iff.mp hnew).1
      simp at hfull
      omega
    rcases s.watch.publish_cases change with ⟨err, -, hwhy⟩ | ⟨hpublish, -⟩ | ⟨-, -, -, hroom⟩
    · rcases hwhy hvalid with ⟨htrue, -⟩ | ⟨-, hsome⟩
      · rw [hpending] at htrue
        cases htrue
      · rw [hnone] at hsome
        cases hsome
    · refine ⟨_, hpublish, rfl, rfl, fun trace' s' hrun' => ?_⟩
      have hmove := WatchMoves.publish s change
      rw [hpublish] at hmove
      exact (latched_run (hmove.inv hinv) rfl hrun').2.2
    · omega
  · intro hpending change hvalid
    have hsealed : s.watch.Sealed := .inl hpending
    obtain ⟨err, hpublish, hclosed⟩ := hsealed.publish change
    rw [hpublish, hclosed hvalid]
  · intro err hterminal trace' s' hrun'
    obtain ⟨hinv', hterminal', -⟩ := latched_run hinv hterminal hrun'
    refine ⟨hterminal', fun change hvalid => ?_⟩
    rcases s'.watch.publish_cases change with ⟨err', hpublish, hwhy⟩ | ⟨-, -, hnone, -⟩ |
      ⟨-, -, hnone, -⟩
    · rcases hwhy hvalid with ⟨htrue, -⟩ | ⟨-, hsome⟩
      · rw [hinv'.watch.of_terminal (by simp [hterminal'])] at htrue
        cases htrue
      · rw [hterminal', Option.some.injEq] at hsome
        rw [hpublish, hsome]
    · rw [hterminal'] at hnone
      cases hnone
    · rw [hterminal'] at hnone
      cases hnone
  · intro hdeleted trace' s' hrun'
    have hsealed := hdelivered.deleted hdeleted
    obtain ⟨hinv', hsealed', -, hresults⟩ := sealed_run hinv hsealed hrun'
    refine ⟨hsealed'.publish, fun err => hsealed'.terminateWith _, hsealed'.terminateWith _, ?_,
      hresults, fun c hc hlive result c' w' hstep => ?_⟩
    · refine hsealed.imp hinv.watch.pending.mp fun hclosed => ⟨?_, hclosed⟩
      exact hinv.watch.latched (by simp [hclosed])
    · exact (NextCall.steps_of_mem hstep).not_canceled hinv'.watch hsealed' hlive

end Runs

/-! ## A deletion in a full queue -/

namespace Deleted

/-- A target that has appeared, with no instances. -/
def appeared : InstanceChange :=
  ⟨.stateChanged, ⟨[utf8 "1"], 1⟩, [], [], some .missing,
    ⟨weatherTarget, ⟨[utf8 "1"], 1⟩, .empty, []⟩⟩

def deleted : InstanceChange :=
  ⟨.targetDeleted, ⟨[utf8 "1"], 1⟩, [], [], none, ⟨weatherTarget, ⟨[utf8 "1"], 1⟩, .missing, []⟩⟩

def watch : LocalInstanceWatch := ⟨1, [], none, false, false, 0⟩

section Facts

/-- Letters stay as they are. -/
local instance plainCase : UnicodeCase := ⟨fun r => r⟩

theorem validate_deleted : deleted.validate = .ok () := by decide +kernel

theorem validate_appeared : appeared.validate = .ok () := by decide +kernel

theorem newInstanceWatch_one : newInstanceWatch 1 = .ok watch := by decide +kernel

theorem publish_ok (h : change.validate = .ok ()) :
    watch.publish change = (.ok (), watch.push change) := by
  simp [publish, h, watch]

theorem run_publish (h : change.validate = .ok ()) :
    WatchRun ⟨watch, []⟩ [.published change (.ok ())] ⟨watch.push change, []⟩ := by
  have hmove := WatchMoves.publish ⟨watch, []⟩ change
  rw [publish_ok h] at hmove
  exact Run.single hmove

/-- The queue is full, and a valid change is refused without an overflow;
the deletion stays in the queue. -/
theorem not_overflow :
    WatchRun ⟨watch, []⟩ [.published deleted (.ok ())] ⟨watch.push deleted, []⟩
      ∧ newInstanceWatch 1 = .ok watch ∧ (watch.push deleted).queue.length = 1
      ∧ appeared.validate = .ok ()
      ∧ (watch.push deleted).publish appeared = (.error errClosed, watch.push deleted)
      ∧ (watch.push deleted).terminal = none ∧ (watch.push deleted).queue = [deleted] := by
  refine ⟨run_publish validate_deleted, newInstanceWatch_one, rfl, validate_appeared, ?_, rfl, rfl⟩
  rw [publish, validate_appeared]
  rfl

/-- With a queue of one, a second change ends the watch; after a deletion
it is refused, and closing has no effect. -/
theorem delivery_of_one :
    (∃ w', (watch.push appeared).publish appeared = (.error deliveryOverflow, w')
        ∧ w'.terminal = some deliveryOverflow)
      ∧ (watch.push deleted).publish appeared = (.error errClosed, watch.push deleted)
      ∧ (watch.push deleted).close = watch.push deleted := by
  have hoverflow := (watch_delivery newInstanceWatch_one (run_publish validate_appeared)).2.1.2
    appeared validate_appeared rfl rfl
  obtain ⟨-, -, hpending, -, hlast, -⟩ :=
    watch_delivery newInstanceWatch_one (run_publish validate_deleted)
  have hdeleted := hlast ⟨deleted, List.mem_singleton.mpr rfl, rfl⟩ [] _ (.nil _)
  obtain ⟨w', hpublish, hterminal, -⟩ := hoverflow
  exact ⟨⟨w', hpublish, hterminal⟩, hpending rfl appeared validate_appeared, hdeleted.2.2.1⟩

end Facts

end Deleted

end Registry

end Nekiro
