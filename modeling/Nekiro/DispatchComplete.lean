import Nekiro.DispatchFrames
import Nekiro.DispatchSafety
import Nekiro.EventValidity

/-!
# Every accepted invocation ends

With a ledger that takes exactly the valid events, an invocation whose
`created` event is committed has exactly one terminal event when its
dispatch returns, and no event was refused but those that came after the
request context was done. This holds in every run in which no latency is
measured as negative (`dispatch_terminalComplete`): the handlers take
the latency from the wall clock, which may have gone back, and the
contract refuses a negative one.

`Stage` says where an invocation stands in the ledger; each relation of
a run moves it on or ends it.
-/

namespace Nekiro

namespace Dispatch

open Guard Logged RuntimeInvocationSequenceValidator

/-! ## The ledger -/

section Ledger

variable [Semver]

/-- The event is valid for an invocation that has these events. -/
structure ValidNext (es : List InvocationEventV03) (e : InvocationEventV03) : Prop where
  valid : validateInvocationEventV03 e = .ok ()
  admitted : (fresh.nextAll es).Admits e
  ordered : ∀ last ∈ es.getLast?, ∀ t t', Rfc3339.parse last.occurredAt = some t →
    Rfc3339.parse e.occurredAt = some t' → t ≤ t'

/-- A ledger whose `Append` succeeds exactly when its context is not done
and the event is valid. Whether a first event is committed depends on
other invocations too, so for it only one direction is known. The grace
context is never done. -/
structure Env.IdealLedger (env : Env) : Prop where
  first : ∀ log grace event, committed log = [] → env.append log grace event = true →
    (grace = true ∨ env.contextErr log = none) ∧ ValidNext [] event
  next : ∀ log grace event, committed log ≠ [] → (env.append log grace event = true ↔
    (grace = true ∨ env.contextErr log = none) ∧ ValidNext (committed log) event)

end Ledger

/-- An event was refused only because the request context was done. -/
def acceptable (env : Env) (log : Log) (x : Interaction) : Prop :=
  ∀ grace event, x = .append grace event false → grace = false ∧ env.contextErr log ≠ none

/-- The invocation has one terminal event, and no event was rejected. -/
structure TerminalComplete (env : Env) (log : Log) : Prop where
  once : (outcomes log).length = 1
  unrejected : Lawful (acceptable env) log

def Interaction.since? : Interaction → Option Time
  | .since t => some t
  | _ => none

/-- The readings latencies are taken from. -/
def latencies (log : Log) : List Time := log.filterMap Interaction.since?

/-- No reading is a millisecond or more before the start. -/
def Timely (startedAt : Time) (log : Log) : Prop := ∀ t ∈ latencies log, startedAt - 1000000 < t

variable {log : Log} {t : Time} {env : Env} {request : DispatchInvocationRequestV1}
  {event e : InvocationEventV03}

theorem mem_latencies : t ∈ latencies log ↔ .since t ∈ log := by
  unfold latencies
  rw [List.mem_filterMap]
  constructor
  · rintro ⟨x, hx, hxt⟩
    cases x <;> simp_all [Interaction.since?]
  · exact fun h => ⟨_, h, rfl⟩

theorem latencies_append (log log' : Log) :
    latencies (log ++ log') = latencies log ++ latencies log' :=
  List.filterMap_append

variable {x : Interaction} {events : List InvocationEventV03} {result : Bool × Log}

theorem latencies_concat (hx : x.since? = none) (log : Log) :
    latencies (log ++ [x]) = latencies log := by
  rw [latencies_append]
  simp [latencies, hx]

theorem latencies_quiets {log' : Log} (h : Quiets log log') : latencies log' = latencies log := by
  refine h.induction (P := fun l => latencies l = latencies log) rfl fun l x hl hx => ?_
  rw [latencies_concat (by cases x <;> first | rfl | exact hx.elim), hl]

/-- A latency is not negative when its reading is not a millisecond
before the start. -/
theorem millisecondsSince_nonneg_iff {startedAt : Time} :
    0 ≤ Env.millisecondsSince startedAt t ↔ startedAt - 1000000 < t := by
  have hclamp : ∀ d : Int, 0 ≤ (max (-9223372036854775808) (min d 9223372036854775807)).tdiv 1000000
      ↔ -1000000 < d := by
    intro d
    rw [Int.tdiv_eq_ediv]
    have hsign : Int.sign 1000000 = 1 := rfl
    split_ifs <;> omega
  have hshift : ∀ a b : Int, -1000000 < b - a ↔ a - 1000000 < b := by omega
  exact (hclamp _).trans (hshift startedAt t)

/-! ## Where an invocation stands -/

section Stage

variable (env : Env) (request : DispatchInvocationRequestV1) (startedAt : Time)

/-- The invocation is open: its last event has the sequence number `k`
and a status, and `chunks` chunks are recorded. -/
structure Stage (status : InvocationStatus) (k chunks : Nat) (log : Log) : Prop where
  last : ∃ last, fresh.nextAll (committed log) = ⟨some last, k + 1, chunks, false⟩
    ∧ last.toInvocationContext = request.toInvocationContext ∧ last.status = status
    ∧ last.occurredAt = Rfc3339.format (startedAt + Env.microseconds k)
  unfinished : outcomes log = []
  unrejected : Lawful (acceptable env) log

/-- What a run can rely on. -/
structure Setting [Semver] : Prop where
  traceable : request.Traceable
  context : request.toInvocationContext.Schema
  ledger : env.IdealLedger
  era : ∀ k : Nat, k ≤ env.stream.length + 4 → InEra (startedAt + Env.microseconds k)
  bounded : (env.stream.length : Int) + 4 < 10 ^ 30

end Stage

/-- No append. -/
def Interaction.Inert : Interaction → Prop
  | .append _ _ _ => False
  | _ => True

section Moves

variable {env : Env} {request : DispatchInvocationRequestV1} {startedAt : Time}
  {status : InvocationStatus} {k chunks : Nat} {log : Log}

theorem acceptable_of_inert (hx : x.Inert) : acceptable env log x := by
  rintro grace event rfl
  exact hx.elim

theorem outcomes_concat (log : Log) (x : Interaction) :
    outcomes (log ++ [x]) = outcomes log
      ++ x.committed?.toList.filter fun e => isRuntimeTerminalStatus e.status := by
  unfold outcomes
  rw [committed_concat, List.filter_append]

theorem committed_of_inert (hx : x.Inert) : x.committed? = none := by
  cases x <;> first | rfl | exact hx.elim

section Standing

variable (h : Stage env request startedAt status k chunks log)

include h

theorem Stage.inert (hx : x.Inert) :
    Stage env request startedAt status k chunks (log ++ [x]) where
  last := by
    rw [committed_concat, committed_of_inert hx]
    simpa using h.last
  unfinished := by
    rw [outcomes_concat, committed_of_inert hx]
    simpa using h.unfinished
  unrejected := lawful_concat.mpr ⟨h.unrejected, acceptable_of_inert hx⟩

theorem Stage.since_now (t t' : Time) :
    Stage env request startedAt status k chunks (log ++ [.since t] ++ [.now t']) :=
  (h.inert (x := .since t) trivial).inert (x := .now t') trivial

theorem Stage.now_since (t t' : Time) :
    Stage env request startedAt status k chunks (log ++ [.now t'] ++ [.since t]) :=
  (h.inert (x := .now t') trivial).inert (x := .since t) trivial

theorem Stage.quiets {log' : Log} (hquiet : Quiets log log') :
    Stage env request startedAt status k chunks log' :=
  hquiet.induction h fun _ x hl hx => hl.inert (by cases x <;> trivial)

theorem Stage.committed_ne : committed log ≠ [] := by
  intro hnil
  obtain ⟨last, hnext, -⟩ := h.last
  rw [hnil] at hnext
  exact nomatch hnext

/-- A committed event moves the invocation on. -/
theorem Stage.commit {e : InvocationEventV03}
    (hbuilt : Built request (k + 1) (startedAt + Env.microseconds (k + 1)) e)
    (hstatus : isRuntimeTerminalStatus e.status = false) :
    Stage env request startedAt e.status (k + 1) (if e.type = .stream then chunks + 1 else chunks)
      (log ++ [.append false e true]) where
  last := by
    obtain ⟨last, hnext, -⟩ := h.last
    refine ⟨e, ?_, hbuilt.context, rfl, hbuilt.occurredAt⟩
    rw [committed_concat]
    simp only [Interaction.committed?, Option.toList_some, nextAll_concat, hnext, next, hstatus]
    split_ifs <;> rfl
  unfinished := by
    rw [outcomes_concat, h.unfinished]
    simp [Interaction.committed?, hstatus]
  unrejected := lawful_concat.mpr ⟨h.unrejected, fun _ _ heq => by simp at heq⟩

/-- An event refused under a context that is done changes nothing. -/
theorem Stage.refuse (hdone : env.contextErr log ≠ none) (e : InvocationEventV03) :
    Stage env request startedAt status k chunks (log ++ [.append false e false]) where
  last := by
    rw [committed_concat]
    simpa [Interaction.committed?] using h.last
  unfinished := by
    rw [outcomes_concat, h.unfinished]
    rfl
  unrejected := lawful_concat.mpr ⟨h.unrejected, fun grace event heq => by
    obtain ⟨rfl, -, -⟩ := Interaction.append.inj heq
    exact ⟨rfl, hdone⟩⟩

end Standing

theorem Stage.chunk {n : Nat} (h : Stage env request startedAt .running (n + 2) n log)
    (payload : Json.Bytes) :
    Stage env request startedAt .running (n + 1 + 2) (n + 1)
      (log ++ [.append false (chunkEntry request startedAt n payload) true]) := by
  have hsequence : ((n + 2 : Nat) : Int) + 1 = n + 3 := by omega
  exact h.commit (e := chunkEntry request startedAt n payload)
    (by rw [hsequence]; exact ⟨rfl, rfl, rfl, rfl, rfl⟩) rfl

variable [Semver]

/-- At a stage the ledger takes the events of the request that are valid
on their own, go on in sequence and do not go back in time. -/
theorem Stage.append_iff (hset : Setting env request startedAt)
    (h : Stage env request startedAt status k chunks log) {e : InvocationEventV03} {time : Time}
    (hbuilt : Built request (k + 1) time e) (hk : k ≤ env.stream.length + 4)
    (htime : startedAt + Env.microseconds k ≤ time) (hera : InEra time)
    (htransition : validRuntimeTransition status e.type e.status = true)
    (hchunk : e.type = .stream → e.chunkIndex = some (chunks : Int)) (grace : Bool) :
    env.append log grace e = true ↔
      (grace = true ∨ env.contextErr log = none) ∧ validateInvocationEventV03 e = .ok () := by
  rw [hset.ledger.next log grace e h.committed_ne]
  refine and_congr_right fun _ => ⟨fun hvalid => hvalid.valid, fun hvalid => ?_⟩
  obtain ⟨last, hnext, hctx, hstatus, hocc⟩ := h.last
  have hlast : (committed log).getLast? = some last := by
    rw [← (nextAll_fresh_last (committed log)).1, hnext]
  refine ⟨hvalid, ?_, ?_⟩
  · rw [hnext]
    refine ⟨rfl, hbuilt.sequence, fun hnone => by simp at hnone, ?_, ?_, hchunk⟩
    · rintro last' ⟨⟩
      rw [hctx, hbuilt.context]
    · rintro last' ⟨⟩
      rw [hstatus]
      exact htransition
  · rw [hlast]
    rintro last' ⟨⟩ t t' ht ht'
    have hknown := hset.era k hk
    rw [hocc, Rfc3339.parse_format hknown.1 hknown.2] at ht
    rw [hbuilt.occurredAt, Rfc3339.parse_format hera.1 hera.2] at ht'
    cases ht
    obtain rfl := Option.some.inj ht'
    exact htime

end Moves

/-! ## How a run ends -/

section Ends

variable {env : Env} {request : DispatchInvocationRequestV1} {startedAt : Time}
  {status : InvocationStatus} {k chunks : Nat} {log out : Log}

/-- The run is complete exactly when its latency could be taken. -/
def Ends (env : Env) (startedAt : Time) (log : Log) : Prop :=
  TerminalComplete env log ↔ Timely startedAt log

theorem Ends.inert (h : Ends env startedAt log) (hx : x.Inert) (hsince : x.since? = none) :
    Ends env startedAt (log ++ [x]) := by
  unfold Ends Timely at h ⊢
  rw [latencies_concat hsince, ← h]
  have houtcomes : outcomes (log ++ [x]) = outcomes log := by
    rw [outcomes_concat, committed_of_inert hx]
    simp
  constructor
  · rintro ⟨honce, hlawful⟩
    exact ⟨houtcomes ▸ honce, (lawful_concat.mp hlawful).1⟩
  · rintro ⟨honce, hlawful⟩
    exact ⟨houtcomes ▸ honce, lawful_concat.mpr ⟨hlawful, acceptable_of_inert hx⟩⟩

/-- The attempt at the terminal event decides. -/
theorem Stage.ends (h : Stage env request startedAt status k chunks log) {e : InvocationEventV03}
    {committed : Bool} (hterminal : isRuntimeTerminalStatus e.status = true)
    (hcommitted : committed = true ↔ Timely startedAt log) :
    Ends env startedAt (log ++ [.append true e committed]) := by
  have hlat : latencies (log ++ [.append true e committed]) = latencies log :=
    latencies_concat rfl log
  unfold Ends Timely
  rw [hlat]
  refine Iff.trans ?_ hcommitted
  cases committed with
  | true =>
      refine ⟨fun _ => rfl, fun _ => ⟨?_, ?_⟩⟩
      · rw [outcomes_concat, h.unfinished]
        simp [Interaction.committed?, hterminal]
      · exact lawful_concat.mpr ⟨h.unrejected, fun _ _ heq => by simp at heq⟩
  | false =>
      refine ⟨fun hcomplete => ?_, fun htrue => absurd htrue (by simp)⟩
      exact absurd ((lawful_concat.mp hcomplete.unrejected).2 true e rfl).1 (by simp)

variable {event : InvocationResultStreamEventV2} {latency : Int} {code : PlatformErrorCode}
  {n : Nat} {t : Time}

theorem shows_ends (h : Ends env startedAt log) (hshow : Shows env event log out) :
    Ends env startedAt out := by
  cases hshow with
  | refused => exact (h.inert (x := .refused event) trivial rfl).inert trivial rfl
  | broken => exact (h.inert (x := .frame event _ _) trivial rfl).inert trivial rfl
  | shown => exact h.inert trivial rfl

theorem shows_extends (hshow : Shows env event log out) : log <+: out := by
  cases hshow <;> simp

theorem quiets_extends (hquiet : Quiets log out) : log <+: out := by
  obtain ⟨qs, rfl, -⟩ := hquiet
  exact List.prefix_append log qs

theorem answers_extends {sequence : Int} {eventType : EventType} {occurredAt : Time}
    (hanswer : Answers env request sequence eventType status occurredAt latency code log out) :
    log <+: out := by
  cases hanswer <;> simp

theorem closes_extends (hclose : Closes env request startedAt n code log out) : log <+: out := by
  cases hclose with
  | unknown => exact List.prefix_append log _
  | attempted _ _ _ hshow => exact .trans (by simp) (shows_extends hshow)

theorem relay_extends (hrelay : Relay env request startedAt n log out) : log <+: out := by
  induction hrelay with
  | fails hquiet _ hclose => exact (quiets_extends hquiet).trans (closes_extends hclose)
  | refused _ _ hquiet _ hclose =>
      exact .trans (by simp) ((quiets_extends hquiet).trans (closes_extends hclose))
  | failedLedger _ _ _ hquiet hshow =>
      exact .trans (by simp) ((quiets_extends hquiet).trans (shows_extends hshow))
  | tooLarge _ _ _ _ hquiet _ hclose =>
      exact .trans (by simp) ((quiets_extends hquiet).trans (closes_extends hclose))
  | broken _ _ _ _ _ hquiet _ hclose =>
      exact .trans (by simp) ((quiets_extends hquiet).trans (closes_extends hclose))
  | delivered _ _ _ _ _ _ ih => exact .trans (by simp) ih
  | completes hquiet _ _ hshow =>
      exact (quiets_extends hquiet).trans (.trans (by simp) (shows_extends hshow))
  | reports hquiet _ _ _ _ _ _ _ hshow =>
      exact (quiets_extends hquiet).trans (.trans (by simp) (shows_extends hshow))
  | unreportable hquiet _ _ _ _ _ hshow => exact (quiets_extends hquiet).trans (shows_extends hshow)

theorem halts_extends {child : Bool} {event : InvocationEventV03}
    (hhalt : Halts env request startedAt child event log out) : log <+: out := by
  cases hhalt with
  | failed _ hquiet => exact .trans (by simp) ((quiets_extends hquiet).trans (by simp))
  | closed _ hquiet _ _ => exact .trans (by simp) ((quiets_extends hquiet).trans (by simp))

theorem opens_extends {child : Bool} (hopen : Opens env request startedAt child events log result) :
    log <+: result.2 := by
  induction hopen with
  | done => exact List.prefix_rfl
  | commit _ _ ih => exact .trans (by simp) ih
  | halt _ hhalt => exact halts_extends hhalt

/-! ### Terminal events -/

theorem microseconds_mono (startedAt : Time) {m n : Int} (h : m ≤ n) :
    startedAt + Env.microseconds m ≤ startedAt + Env.microseconds n :=
  Int.add_le_add_left (Int.mul_le_mul_of_nonneg_right h (by decide)) startedAt

/-- A terminal event is not earlier than the event before it. -/
theorem le_occurredAt (startedAt : Time) (k : Nat) (t : Time) :
    startedAt + Env.microseconds k ≤ Env.occurredAt startedAt (k + 1) t
      ∧ startedAt + Env.microseconds (k + 1) ≤ Env.occurredAt startedAt (k + 1) t := by
  have hlast : startedAt + Env.microseconds (k + 1) ≤ Env.occurredAt startedAt (k + 1) t := by
    unfold Env.occurredAt
    dsimp only
    split_ifs with h
    · exact Int.le_refl _
    · exact Int.not_lt.mp h
  exact ⟨Int.le_trans (microseconds_mono startedAt (by omega)) hlast, hlast⟩

/-- After one reading for the latency, it decides. -/
theorem timely_of_reading (hunread : latencies log = []) {log1 : Log}
    (hlog1 : latencies log1 = latencies log ++ [t]) :
    0 ≤ Env.millisecondsSince startedAt t ↔ Timely startedAt log1 := by
  rw [millisecondsSince_nonneg_iff, Timely, hlog1, hunread]
  simp

/-- With a latency that is not measured, the terminal event is valid. -/
theorem timely_unread (hunread : latencies log = []) : (0 : Int) ≤ 0 ↔ Timely startedAt log := by
  simp [Timely, hunread]

theorem latencies_since_now (log : Log) (t t' : Time) :
    latencies (log ++ [.since t] ++ [.now t']) = latencies log ++ [t] := by
  rw [latencies_concat rfl, latencies_append]
  rfl

theorem latencies_now_since (log : Log) (t t' : Time) :
    latencies (log ++ [.now t'] ++ [.since t]) = latencies log ++ [t] := by
  rw [latencies_append, latencies_concat rfl]
  rfl

theorem eventType_streamFailureType (code : PlatformErrorCode) :
    ((streamFailureType code).1.eventType, (streamFailureType code).2) = outcomeType code := by
  cases code <;> rfl

theorem known_dispatchErrorCode (c : ContextError) : (dispatchErrorCode c.err).known = true := by
  cases c <;> decide

/-- Every outcome may end a running invocation. -/
theorem running_transition (code : PlatformErrorCode) :
    validRuntimeTransition .running (outcomeType code).1 (outcomeType code).2 = true := by
  cases code <;> rfl

theorem terminalEntry_eq (n : Nat) (code : PlatformErrorCode) (t t' : Time) :
    terminalEntry request startedAt n (streamFailureType code) code t t'
      = terminalEvent request ((n + 2 : Nat) + 1) (outcomeType code).1 (outcomeType code).2
        (Env.occurredAt startedAt ((n + 2 : Nat) + 1) t') (Env.millisecondsSince startedAt t)
          code := by
  have hsequence : (n : Int) + 3 = (n + 2 : Nat) + 1 := by omega
  have htype := eventType_streamFailureType code
  unfold terminalEntry
  rw [hsequence, ← htype]

variable [Semver] (hset : Setting env request startedAt)

include hset

theorem Setting.era_occurredAt {k : Nat}
    (hk : k + 1 ≤ env.stream.length + 4) (ht : t.utcYear ≤ 9999) :
    InEra (Env.occurredAt startedAt (k + 1) t) := by
  have hera := hset.era (k + 1) hk
  refine ⟨Int.le_trans hera.1 (Time.utcYear_mono (le_occurredAt startedAt k t).2), ?_⟩
  unfold Env.occurredAt
  dsimp only
  split_ifs
  · exact hera.2
  · rw [Time.utcYear_truncateMicro]
    exact ht

theorem Setting.sequence_lt {k : Nat}
    (hk : k ≤ env.stream.length + 4) : (k : Int) < 10 ^ 30 :=
  Int.lt_of_le_of_lt (by omega) hset.bounded

/-- The ledger takes a terminal event of its code's own type exactly when
the latency is not negative. -/
theorem Stage.terminal_iff (h : Stage env request startedAt status k chunks log)
    (hk : k + 1 ≤ env.stream.length + 4) (hcode : code.known = true) (ht : t.utcYear ≤ 9999)
    (htransition : validRuntimeTransition status (outcomeType code).1 (outcomeType code).2 = true) :
    env.append log true (terminalEvent request (k + 1) (outcomeType code).1 (outcomeType code).2
      (Env.occurredAt startedAt (k + 1) t) latency code) = true ↔ 0 ≤ latency := by
  have hera := hset.era_occurredAt hk ht
  have hstream : (outcomeType code).1 ≠ .stream := by cases code <;> exact nofun
  rw [h.append_iff hset ⟨rfl, rfl, rfl, rfl, rfl⟩ (by omega) (le_occurredAt startedAt k t).1 hera
    htransition (fun htype => absurd htype hstream) true,
    validate_terminalEvent_iff hset.traceable hset.context (by omega) ?_ hera hcode]
  · simp
  · exact_mod_cast hset.sequence_lt hk

theorem Stage.succeeded_iff (h : Stage env request startedAt .running k chunks log)
    (hk : k + 1 ≤ env.stream.length + 4) {t' : Time} (ht : t'.utcYear ≤ 9999) :
    env.append log true (succeededEvent request startedAt (k + 1) t t') = true ↔
      0 ≤ Env.millisecondsSince startedAt t := by
  have hera := hset.era_occurredAt hk ht
  have hbuilt : Built request (k + 1) (Env.occurredAt startedAt (k + 1) t')
      (succeededEvent request startedAt (k + 1) t t') := ⟨rfl, rfl, rfl, rfl, rfl⟩
  rw [h.append_iff hset hbuilt (by omega) (le_occurredAt startedAt k t').1 hera rfl nofun true,
    hbuilt.valid_iff hset.context (by omega) (by exact_mod_cast hset.sequence_lt hk) hera]
  constructor
  · rintro ⟨-, -, -, hlatency, -⟩
    exact hlatency _ rfl
  · intro hlatency
    exact ⟨.inl rfl, nofun, nofun, by rintro i ⟨⟩; exact hlatency, nofun, rfl, nofun⟩

/-- The terminal event of a code goes to the ledger, and the client is
answered. -/
theorem answers_ends (h : Stage env request startedAt status k chunks log)
    (hk : k + 1 ≤ env.stream.length + 4) (hcode : code.known = true) (ht : t.utcYear ≤ 9999)
    (htransition : validRuntimeTransition status (outcomeType code).1 (outcomeType code).2 = true)
    (hlatency : 0 ≤ latency ↔ Timely startedAt log)
    (hanswer : Answers env request (k + 1) (outcomeType code).1 (outcomeType code).2
      (Env.occurredAt startedAt (k + 1) t) latency code log out) : Ends env startedAt out := by
  cases hanswer with
  | unknown hunknown =>
      rw [hcode] at hunknown
      exact nomatch hunknown
  | @attempted event committed _ hevent happend =>
      have hterminal : isRuntimeTerminalStatus event.status = true := by
        rw [hevent]
        cases code <;> rfl
      refine (h.ends hterminal ?_).inert trivial rfl
      rw [← happend, hevent, h.terminal_iff hset hk hcode ht htransition, hlatency]

theorem closes_ends (hn : n ≤ env.stream.length)
    (h : Stage env request startedAt .running (n + 2) n log) (hunread : latencies log = [])
    (hcode : code.known = true) (hyears : ∀ t, .now t ∈ out → t.utcYear ≤ 9999)
    (hclose : Closes env request startedAt n code log out) : Ends env startedAt out := by
  cases hclose with
  | unknown hunknown =>
      rw [hcode] at hunknown
      exact nomatch hunknown
  | @attempted t t' event committed _ _ hevent happend hshow =>
      have hread := h.since_now t t'
      have hyear : t'.utcYear ≤ 9999 := hyears t' ((shows_extends hshow).subset (by simp))
      have hterminal : isRuntimeTerminalStatus event.status = true := by
        rw [hevent]
        cases code <;> rfl
      refine shows_ends (hread.ends hterminal ?_) hshow
      rw [← happend, hevent, terminalEntry_eq,
        hread.terminal_iff hset (by omega) hcode hyear (running_transition code)]
      exact timely_of_reading hunread (latencies_since_now log t t')

end Ends

/-! ## Whole runs -/

/-- What is asked of the other parties of a run with a record `log`. The
codes of errors are those of Platform Error v4, and a code that has a
type of its own comes with that type. The times are ones the contract can
spell. -/
structure Env.Recordable (env : Env) (request : DispatchInvocationRequestV1)
    (targetErr : Option GoError) (log : Log) : Prop where
  target : ∀ err, targetErr = some err → (dispatchErrorCode err).known = true
    ∧ outcomeType (dispatchErrorCode err) = (.failed, .failed)
  result : ∀ err, env.nonStreaming = .error err → (dispatchErrorCode err).known = true
  errors : ∀ err, .error err ∈ env.stream → (streamCode none err).known = true
  reports : ∀ event, .ok event ∈ env.stream → event.terminalType ≠ .other "" →
    (streamTerminalType event.terminalType event.terminalStatus).1 ≠ .completed →
    event.errorCode ≠ .other "" → event.errorCode.known = true
      ∧ streamTerminalType event.terminalType event.terminalStatus
        = streamFailureType event.errorCode
  accepted : Fits env.sseEventLimitBytes (acceptedEvent request)
    ∨ ∀ c, .contextErr (some c) ∉ log
  times : ∀ t : Time, .now t ∈ log → 0 ≤ t.utcYear
    ∧ Time.utcYear (t + Env.microseconds (env.stream.length + 4)) ≤ 9999

theorem Env.Recordable.year {targetErr : Option GoError} (h : env.Recordable request targetErr log)
    (ht : .now t ∈ log) : t.utcYear ≤ 9999 := by
  have hlater : t ≤ t + Env.microseconds (env.stream.length + 4) :=
    Int.le_add_of_nonneg_right (Int.mul_nonneg (by omega) (by decide))
  exact Int.le_trans (Time.utcYear_mono hlater) (h.times t ht).2

/-- The years bound the stream. -/
theorem stream_bounded {n : Nat} (h0 : 0 ≤ t.utcYear)
    (h1 : Time.utcYear (t + Env.microseconds (n + 4)) ≤ 9999) : (n : Int) + 4 < 10 ^ 30 := by
  have hyears := Int.le_trans h0 (Time.utcYear_mono
    (Int.le_add_of_nonneg_right (Int.mul_nonneg (by omega) (by decide)) :
      t ≤ t + Env.microseconds (n + 4)))
  have hstart := (Civil.days_of_year h0 (Int.le_refl _)).1
  have hend := (Civil.days_of_year hyears h1).2
  have hdays : ∀ a m : Int, -366 ≤ a / 1000000000 / 86400 →
      (a + m * 1000) / 1000000000 / 86400 < 3652059 → m < 1000000000000000000000000000000 := by
    omega
  have hlo : Civil.daysBeforeYear 0 = -366 := by decide
  have hhi : Civil.daysBeforeYear (9999 + 1) = 3652059 := by decide
  rw [hlo] at hstart
  rw [hhi] at hend
  exact_mod_cast hdays t (n + 4) hstart hend

/-- A run in which `created` is refused has nothing in the ledger. -/
theorem halts_created {startedAt : Time} {out : Log} {child : Bool} (hevent : event.sequence = 0)
    (hhalt : Halts env request startedAt child event log out) : committed out = committed log := by
  cases hhalt with
  | failed _ hquiet =>
      rw [committed_concat, committed_quiets hquiet, committed_concat]
      simp [Interaction.committed?]
  | closed hlater => omega

/-- The record of a run that has committed `created`. -/
def accepted (request : DispatchInvocationRequestV1) (t : Time) : Log :=
  [.now t] ++ [.append false (Env.createdEvent request t.truncateMicro) true]

theorem stage_accepted (env : Env) (request : DispatchInvocationRequestV1) (t : Time) :
    Stage env request t.truncateMicro .pending 0 0 (accepted request t) where
  last := by
    refine ⟨Env.createdEvent request t.truncateMicro, rfl, rfl, rfl, ?_⟩
    exact congrArg Rfc3339.format (Int.add_zero t.truncateMicro).symm
  unfinished := rfl
  unrejected := by
    have hnow : Lawful (acceptable env) ([] ++ [.now t]) :=
      lawful_concat.mpr ⟨lawful_nil _, acceptable_of_inert (x := .now t) trivial⟩
    exact lawful_concat.mpr ⟨hnow, fun _ _ heq => by simp at heq⟩

/-- The opening of a run that commits anything commits `created`. -/
theorem opens_accepted {child : Bool} (hcommitted : result.1 = false → committed result.2 ≠ [])
    (hopen : Opens env request t.truncateMicro child
      (Env.createdEvent request t.truncateMicro :: events) [.now t] result) :
    env.append [.now t] false (Env.createdEvent request t.truncateMicro) = true
      ∧ Opens env request t.truncateMicro child events (accepted request t) result := by
  cases hopen with
  | commit happend hnext => exact ⟨happend, hnext⟩
  | halt _ hhalt => exact absurd (halts_created rfl hhalt) (hcommitted rfl)

section Whole

variable [Semver] {env : Env} {request : DispatchInvocationRequestV1} {startedAt : Time}
  {targetErr : Option GoError} {log out : Log} {status : InvocationStatus} {child : Bool} {t : Time}

section Setting

variable (hset : Setting env request startedAt)

include hset

/-- The ledger takes a chunk, unless the context is done. -/
theorem Stage.chunk_iff {n : Nat}
    (hn : n < env.stream.length) (h : Stage env request startedAt .running (n + 2) n log)
    (payload : Json.Bytes) :
    env.append log false (chunkEntry request startedAt n payload) = true ↔
      env.contextErr log = none := by
  have hsequence : ((n + 2 : Nat) : Int) + 1 = n + 3 := by omega
  have hera : InEra (startedAt + Env.microseconds (n + 3)) := by
    simpa using hset.era (n + 3) (by omega)
  have htime : startedAt + Env.microseconds (n + 2 : Nat) ≤ startedAt + Env.microseconds (n + 3) :=
    microseconds_mono startedAt (by omega)
  have hbuilt : Built request ((n + 2 : Nat) + 1) (startedAt + Env.microseconds (n + 3))
      (chunkEntry request startedAt n payload) := by
    rw [hsequence]
    exact ⟨rfl, rfl, rfl, rfl, rfl⟩
  have hvalid : validateInvocationEventV03 (chunkEntry request startedAt n payload) = .ok () := by
    refine hbuilt.valid_of_shape hset.context (by omega) ?_ hera ?_ ?_ nofun rfl rfl
    · exact_mod_cast hset.sequence_lt (k := n + 3) (by omega)
    · rintro i ⟨⟩
      exact Int.natCast_nonneg n
    · rintro i ⟨⟩
      exact Int.natCast_nonneg payload.length
  rw [h.append_iff hset hbuilt (by omega) htime hera rfl (fun _ => rfl) false]
  simp [hvalid]

theorem relay_ends (hrec : env.Recordable request targetErr out) {n : Nat}
    (hn : n ≤ env.stream.length)
    (h : Stage env request startedAt .running (n + 2) n log) (hunread : latencies log = [])
    (hrelay : Relay env request startedAt n log out) : Ends env startedAt out := by
  induction hrelay with
  | fails hquiet hcode hclose =>
      refine closes_ends hset hn (h.quiets hquiet) ((latencies_quiets hquiet).trans hunread) ?_
        (fun t => hrec.year) hclose
      rcases hcode with hcode | ⟨err, hmem, rfl⟩
      · exact hcode
      · exact hrec.errors err hmem
  | @refused n log _ _ event _ hevent happend hquiet hcode hclose =>
      have hlt := (List.getElem?_eq_some_iff.mp hevent).1
      have hdone : env.contextErr log ≠ none := fun hnone => by
        rw [(h.chunk_iff hset hlt event.payload).mpr hnone] at happend
        exact nomatch happend
      refine closes_ends hset hn ((h.refuse hdone _).quiets hquiet) ?_ hcode (fun t => hrec.year)
        hclose
      rw [latencies_quiets hquiet, latencies_concat rfl, hunread]
  | failedLedger hevent happend hlive hquiet hshow =>
      have hlt := (List.getElem?_eq_some_iff.mp hevent).1
      rw [(h.chunk_iff hset hlt _).mpr hlive] at happend
      exact nomatch happend
  | tooLarge hevent hvalid happend hencode hquiet hcode hclose =>
      have hlt := (List.getElem?_eq_some_iff.mp hevent).1
      refine closes_ends hset hlt (((h.chunk _).inert (x := .refused _) trivial).quiets hquiet) ?_
        hcode (fun t => hrec.year) hclose
      rw [latencies_quiets hquiet, latencies_concat rfl, latencies_concat rfl, hunread]
  | broken hevent hvalid happend hencode hwrite hquiet hcode hclose =>
      have hlt := (List.getElem?_eq_some_iff.mp hevent).1
      refine closes_ends hset hlt (((h.chunk _).inert (x := .frame _ _ _) trivial).quiets hquiet) ?_
        hcode (fun t => hrec.year) hclose
      rw [latencies_quiets hquiet, latencies_concat rfl, latencies_concat rfl, hunread]
  | delivered hevent hvalid happend hencode hwrite hnext ih =>
      have hlt := (List.getElem?_eq_some_iff.mp hevent).1
      refine ih hrec hlt ((h.chunk _).inert trivial) ?_
      rw [latencies_concat rfl, latencies_concat rfl, hunread]
  | @completes n _ log1 _ t t' entry committed hquiet hentry happend hshow =>
      have hread := (h.quiets hquiet).now_since t t'
      have hyear : t'.utcYear ≤ 9999 := hrec.year ((shows_extends hshow).subset (by simp))
      have hsequence : ((n + 2 : Nat) : Int) + 1 = n + 3 := by omega
      have hterminal : isRuntimeTerminalStatus entry.status = true := by rw [hentry]; rfl
      refine shows_ends (hread.ends hterminal ?_) hshow
      rw [← happend, hentry, ← hsequence, hread.succeeded_iff hset (by omega) hyear]
      exact timely_of_reading ((latencies_quiets hquiet).trans hunread)
        (latencies_now_since log1 t t')
  | @reports n _ log1 _ t t' event entry committed outcome hquiet hevent hlast hcode houtcome
      hother hentry happend hshow =>
      have hread := (h.quiets hquiet).since_now t t'
      have hyear : t'.utcYear ≤ 9999 := hrec.year ((shows_extends hshow).subset (by simp))
      have hnamed : event.errorCode ≠ .other "" := fun hempty => by
        rw [hempty] at hcode
        exact nomatch hcode
      have hown : outcome = streamFailureType event.errorCode := by
        rw [houtcome] at hother ⊢
        exact (hrec.reports event hevent hlast hother hnamed).2
      rw [hown] at hentry
      have hterminal : isRuntimeTerminalStatus entry.status = true := by
        rw [hentry]
        cases event.errorCode <;> rfl
      refine shows_ends (hread.ends hterminal ?_) hshow
      rw [← happend, hentry, terminalEntry_eq,
        hread.terminal_iff hset (by omega) hcode hyear (running_transition event.errorCode)]
      exact timely_of_reading ((latencies_quiets hquiet).trans hunread)
        (latencies_since_now log1 t t')
  | unreportable hquiet hevent hlast hcode hother hcode' hshow =>
      have hknown := (hrec.reports _ hevent hlast hother hcode').1
      rw [hcode] at hknown
      exact nomatch hknown

/-! ### The initial events -/

/-- The ledger takes an event of the opening, unless the context is
done. -/
theorem Stage.progress_iff {k chunks : Nat}
    (h : Stage env request startedAt status k chunks log) (hk : k + 1 ≤ env.stream.length + 4)
    {e : InvocationEventV03}
    (hbuilt : Built request (k + 1) (startedAt + Env.microseconds (k + 1)) e)
    (htransition : validRuntimeTransition status e.type e.status = true)
    (hplain : e.chunkIndex = none ∧ e.chunkBytes = none ∧ e.latencyMS = none ∧ e.error = none)
    (hshape : e.shape = true) (hstream : e.type ≠ .stream) :
    env.append log false e = true ↔ env.contextErr log = none := by
  obtain ⟨hindex, hbytes, hlatency, herror⟩ := hplain
  have hera : InEra (startedAt + Env.microseconds (k + 1)) := by
    simpa using hset.era (k + 1) hk
  have hvalid : validateInvocationEventV03 e = .ok () := by
    refine hbuilt.valid_of_shape hset.context (by omega) ?_ hera ?_ ?_ ?_ herror hshape
    · exact_mod_cast hset.sequence_lt hk
    · rw [hindex]
      exact nofun
    · rw [hbytes]
      exact nofun
    · rw [hlatency]
      exact nofun
  rw [h.append_iff hset hbuilt (by omega) (microseconds_mono startedAt (by omega)) hera htransition
    (fun htype => absurd htype hstream) false]
  simp [hvalid]

/-- An event of the opening is refused: the context is done, and closes
the invocation. -/
theorem halts_ends (hrec : env.Recordable request targetErr out) {k chunks : Nat}
    (h : Stage env request startedAt status k chunks log) (hunread : latencies log = [])
    (hk : k + 1 ≤ env.stream.length + 4) (hstatus : status = .pending ∨ status = .routing)
    {event : InvocationEventV03} (hsequence : event.sequence = k + 1)
    (hdone : env.contextErr log ≠ none) (hhalt : Halts env request startedAt child event log out) :
    Ends env startedAt out := by
  cases hhalt with
  | failed hlive _ =>
      rcases hlive with hfirst | hnone
      · omega
      · exact absurd hnone hdone
  | @closed log1 c t t' entry committed hlater hquiet hentry happend =>
      have hread := ((h.refuse hdone event).quiets hquiet).now_since t t'
      have hyear : t'.utcYear ≤ 9999 := hrec.year (by simp)
      have htriple : c.terminal.2 = outcomeType c.terminal.1 := by cases c <;> rfl
      have htransition : validRuntimeTransition status (outcomeType c.terminal.1).1
          (outcomeType c.terminal.1).2 = true := by
        rcases hstatus with rfl | rfl <;> cases c <;> rfl
      have hterminal : isRuntimeTerminalStatus entry.status = true := by
        rw [hentry]
        cases c <;> rfl
      rw [hsequence, htriple] at hentry
      refine (hread.ends hterminal ?_).inert trivial rfl
      rw [← happend, hentry, hread.terminal_iff hset hk c.terminal_known hyear htransition]
      refine timely_of_reading ?_ (latencies_now_since log1 t t')
      rw [latencies_quiets hquiet, latencies_concat rfl, hunread]

/-- From `created` on, the opening ends the run or gets the invocation
running. -/
theorem opens_ends (h : Stage env request startedAt .pending 0 0 log) (hunread : latencies log = [])
    (hrec : result.1 = false → env.Recordable request targetErr result.2)
    (hopen : Opens env request startedAt child
      [Env.routingEvent request startedAt, Env.startedEvent request startedAt] log result) :
    if result.1 then Stage env request startedAt .running 2 0 result.2 ∧ latencies result.2 = []
    else Ends env startedAt result.2 := by
  have hrouting := h.progress_iff hset (by omega) (e := Env.routingEvent request startedAt)
    ⟨rfl, rfl, rfl, rfl, rfl⟩ rfl ⟨rfl, rfl, rfl, rfl⟩ rfl nofun
  cases hopen with
  | halt happend hhalt =>
      have hdone : env.contextErr log ≠ none := fun hnone => by
        rw [hrouting.mpr hnone] at happend
        exact nomatch happend
      exact halts_ends hset (hrec rfl) h hunread (by omega) (.inl rfl) rfl hdone hhalt
  | commit happend hnext =>
      have h1 := h.commit (e := Env.routingEvent request startedAt) ⟨rfl, rfl, rfl, rfl, rfl⟩ rfl
      have hunread1 : latencies (log ++ [.append false (Env.routingEvent request startedAt) true])
          = [] := by
        rw [latencies_concat rfl, hunread]
      have hstarted := h1.progress_iff hset (by omega) (e := Env.startedEvent request startedAt)
        ⟨rfl, rfl, rfl, rfl, rfl⟩ rfl ⟨rfl, rfl, rfl, rfl⟩ rfl nofun
      cases hnext with
      | halt happend1 hhalt =>
          have hdone : env.contextErr _ ≠ none := fun hnone => by
            rw [hstarted.mpr hnone] at happend1
            exact nomatch happend1
          exact halts_ends hset (hrec rfl) h1 hunread1 (by omega) (.inr rfl) rfl hdone hhalt
      | commit happend1 hnext1 =>
          cases hnext1 with
          | done =>
              refine ⟨h1.commit (e := Env.startedEvent request startedAt)
                ⟨rfl, rfl, rfl, rfl, rfl⟩ rfl, ?_⟩
              rw [latencies_concat rfl, hunread1]

/-- An invocation that is running without a measured latency is closed as
failed. -/
theorem unmeasured_ends (h : Stage env request startedAt .running 2 0 log)
    (hunread : latencies log = [])
    (ht : t.utcYear ≤ 9999) {code : PlatformErrorCode} (hcode : code.known = true)
    (houtcome : outcomeType code = (.failed, .failed))
    (hanswer : Answers env request 3 .failed .failed (Env.occurredAt startedAt 3 t) 0 code
      (log ++ [.now t]) out) : Ends env startedAt out := by
  have hanswer' : Answers env request ((2 : Nat) + 1) (outcomeType code).1 (outcomeType code).2
      (Env.occurredAt startedAt ((2 : Nat) + 1) t) 0 code (log ++ [.now t]) out := by
    rw [houtcome]
    exact hanswer
  refine answers_ends hset (h.inert (x := .now t) trivial) (by omega) hcode ht
    (running_transition code) (timely_unread ?_) hanswer'
  rw [latencies_concat rfl, hunread]

end Setting

section Accepted

variable (hreq : request.Traceable) (hledger : env.IdealLedger)
  (hrec : env.Recordable request targetErr out)

include hreq hledger hrec

/-- What a run relies on, once `created` is committed. -/
theorem setting_of_created (hfirst : .now t ∈ out)
    (happend : env.append [.now t] false (Env.createdEvent request t.truncateMicro) = true) :
    Setting env request t.truncateMicro where
  traceable := hreq
  context := (validateInvocationEventV03_ok_iff.mp
    (hledger.first [.now t] false _ rfl happend).2.valid).1.context
  ledger := hledger
  era := by
    intro k hk
    obtain ⟨hlo, hhi⟩ := hrec.times t hfirst
    have hstart : t.truncateMicro ≤ t.truncateMicro + Env.microseconds k :=
      Int.le_add_of_nonneg_right (Int.mul_nonneg (by omega) (by decide))
    have hlast : t.truncateMicro + Env.microseconds k
        ≤ t + Env.microseconds (env.stream.length + 4) :=
      Int.le_trans (microseconds_mono t.truncateMicro (by omega))
        (Int.add_le_add_right (Time.truncateMicro_le t) _)
    rw [← Time.utcYear_truncateMicro] at hlo
    exact ⟨Int.le_trans hlo (Time.utcYear_mono hstart), Int.le_trans (Time.utcYear_mono hlast) hhi⟩
  bounded := stream_bounded (hrec.times t hfirst).1 (hrec.times t hfirst).2

/-- A run that has committed `created` relies on what it finds there. -/
theorem opens_setting (hcommitted : result.1 = false → committed result.2 ≠ [])
    (hpre : result.2 <+: out) (hopen : Opens env request t.truncateMicro child
      (Env.createdEvent request t.truncateMicro :: events) [.now t] result) :
    Setting env request t.truncateMicro ∧ accepted request t <+: out
      ∧ Opens env request t.truncateMicro child events (accepted request t) result := by
  obtain ⟨happend, hnext⟩ := opens_accepted hcommitted hopen
  have haccepted := (opens_extends hnext).trans hpre
  have hfirst : .now t ∈ out := haccepted.subset (by simp [accepted])
  exact ⟨setting_of_created hreq hledger hrec hfirst happend, haccepted, hnext⟩

/-- An opening that is refused after `created` ends the run. -/
theorem halted_ends (hcommitted : committed out ≠ [])
    (hopen : Opened env request t (false, out)) :
    accepted request t <+: out ∧ Ends env t.truncateMicro out := by
  obtain ⟨hset, hpre, hnext⟩ := opens_setting hreq hledger hrec (fun _ => hcommitted)
    List.prefix_rfl hopen
  have hends := opens_ends hset (stage_accepted env request t) rfl (fun _ => hrec) hnext
  exact ⟨hpre, by simpa using hends⟩

/-- After its opening the invocation is running. -/
theorem opened_stage (hpre : log <+: out)
    (hopen : Opened env request t (true, log)) :
    Setting env request t.truncateMicro ∧ accepted request t <+: out
      ∧ Stage env request t.truncateMicro .running 2 0 log ∧ latencies log = [] := by
  obtain ⟨hset, haccepted, hnext⟩ := opens_setting hreq hledger hrec (by rintro ⟨⟩) hpre hopen
  have hfalse : true = false → env.Recordable request targetErr log := nofun
  have hends := opens_ends hset (stage_accepted env request t) rfl hfalse hnext
  rw [if_pos rfl] at hends
  exact ⟨hset, haccepted, hends⟩

theorem jsonRun_ends (hcommitted : committed out ≠ [])
    (hrun : JsonRun env request targetErr out) :
    ∃ t, accepted request t <+: out ∧ Ends env t.truncateMicro out := by
  cases hrun with
  | @halted t _ hopen => exact ⟨t, halted_ends hreq hledger hrec hcommitted hopen⟩
  | @untargeted t t' err log _ herr hopen hanswer =>
      have hpre := answers_extends hanswer
      obtain ⟨hset, haccepted, hnext⟩ := opens_setting hreq hledger hrec (by rintro ⟨⟩)
        ((List.prefix_append log _).trans hpre) hopen
      obtain ⟨hknown, houtcome⟩ := hrec.target err herr
      have hlog := hnext.log_eq
      have hstage : Stage env request t.truncateMicro .routing 1 0 log := by
        rw [hlog]
        exact (stage_accepted env request t).commit (e := Env.routingEvent request t.truncateMicro)
          ⟨rfl, rfl, rfl, rfl, rfl⟩ rfl
      have hunread : latencies (log ++ [.now t']) = [] := by
        rw [latencies_concat rfl, hlog]
        rfl
      have hanswer' : Answers env request ((1 : Nat) + 1) (outcomeType (dispatchErrorCode err)).1
          (outcomeType (dispatchErrorCode err)).2
          (Env.occurredAt t.truncateMicro ((1 : Nat) + 1) t') 0 (dispatchErrorCode err)
            (log ++ [.now t']) out := by
        rw [houtcome]
        exact hanswer
      refine ⟨t, haccepted, answers_ends hset (hstage.inert (x := .now t') trivial)
        (by omega) hknown
        (hrec.year (hpre.subset (by simp))) ?_ (timely_unread hunread) hanswer'⟩
      rw [houtcome]
      rfl
  | @failed t t' t'' err log log1 _ htarget hopen hquiet herr hanswer =>
      have hpre := answers_extends hanswer
      have hbegin : log <+: log1 := (List.prefix_append log _).trans (quiets_extends hquiet)
      obtain ⟨hset, haccepted, hstage, hunread⟩ := opened_stage hreq hledger hrec
        ((hbegin.trans (by simp)).trans hpre) hopen
      have hknown : (dispatchErrorCode err).known = true := by
        rcases herr with herr | ⟨c, rfl⟩
        · exact hrec.result err herr
        · exact known_dispatchErrorCode c
      have hunread1 : latencies log1 = [] := by
        rw [latencies_quiets hquiet, latencies_concat rfl, hunread]
      have hstage1 :=
        ((hstage.inert (x := .sendNonStreaming) trivial).quiets hquiet).since_now t'' t'
      exact ⟨t, haccepted, answers_ends hset hstage1 (by omega) hknown
        (hrec.year (hpre.subset (by simp))) (running_transition _)
        (timely_of_reading hunread1 (latencies_since_now log1 t'' t')) hanswer⟩
  | @succeeded t t' t'' result log log1 entry committed htarget hopen hquiet hresult hentry
      happend =>
      have hbegin : log <+: log1 := (List.prefix_append log _).trans (quiets_extends hquiet)
      obtain ⟨hset, haccepted, hstage, hunread⟩ := opened_stage hreq hledger hrec
        (hbegin.trans (by simp)) hopen
      have hunread1 : latencies log1 = [] := by
        rw [latencies_quiets hquiet, latencies_concat rfl, hunread]
      have hstage1 :=
        ((hstage.inert (x := .sendNonStreaming) trivial).quiets hquiet).since_now t'' t'
      have hterminal : isRuntimeTerminalStatus entry.status = true := by rw [hentry]; rfl
      refine ⟨t, haccepted, (hstage1.ends hterminal ?_).inert trivial rfl⟩
      rw [← happend, hentry]
      refine (hstage1.succeeded_iff hset (by omega) (hrec.year (by simp))).trans ?_
      exact timely_of_reading hunread1 (latencies_since_now log1 t'' t')

theorem streamRun_ends (hcommitted : committed out ≠ [])
    (hrun : StreamRun env request out) :
    ∃ t, accepted request t <+: out ∧ Ends env t.truncateMicro out := by
  cases hrun with
  | @halted t _ hopen => exact ⟨t, halted_ends hreq hledger hrec hcommitted hopen⟩
  | @unsupported t t' log _ hopen hwriter hanswer =>
      have hpre := answers_extends hanswer
      obtain ⟨hset, haccepted, hstage, hunread⟩ := opened_stage hreq hledger hrec
        ((List.prefix_append log _).trans hpre) hopen
      exact ⟨t, haccepted, unmeasured_ends hset hstage hunread (hrec.year (hpre.subset (by simp)))
        rfl rfl hanswer⟩
  | @unaccepted t t' err code log log1 _ hopen hencode hquiet hcode hcontext hanswer =>
      have hpre := answers_extends hanswer
      have hbegin : log <+: log1 := (List.prefix_append log _).trans (quiets_extends hquiet)
      obtain ⟨hset, haccepted, hstage, hunread⟩ := opened_stage hreq hledger hrec
        ((hbegin.trans (List.prefix_append log1 _)).trans hpre) hopen
      have houtcome : outcomeType code = (.failed, .failed) := by
        rcases hrec.accepted with hfits | hlive
        · exact absurd hfits (not_fits_of_encode hencode)
        · rcases hcontext with rfl | rfl | ⟨c, hc⟩
          · rfl
          · rfl
          · exact absurd (hpre.subset (List.mem_append_left _ hc)) (hlive c)
      have hstage1 := (hstage.inert (x := .refused _) trivial).quiets hquiet
      have hunread1 : latencies log1 = [] := by
        rw [latencies_quiets hquiet, latencies_concat rfl, hunread]
      exact ⟨t, haccepted, unmeasured_ends hset hstage1 hunread1
        (hrec.year (hpre.subset (by simp))) hcode houtcome hanswer⟩
  | @broken t bytes failure code log log1 _ hopen hencode hwrite hquiet hcode hclose =>
      have hbegin : log <+: log1 := (List.prefix_append log _).trans (quiets_extends hquiet)
      obtain ⟨hset, haccepted, hstage, hunread⟩ := opened_stage hreq hledger hrec
        (hbegin.trans (closes_extends hclose)) hopen
      have hunread1 : latencies log1 = [] := by
        rw [latencies_quiets hquiet, latencies_concat rfl, hunread]
      have hstage1 := (hstage.inert (x := .frame _ _ _) trivial).quiets hquiet
      exact ⟨t, haccepted, closes_ends hset (Nat.zero_le _) hstage1 hunread1 hcode
        (fun _ => hrec.year) hclose⟩
  | @relayed t bytes log _ hopen hencode hwrite hrelay =>
      obtain ⟨hset, haccepted, hstage, hunread⟩ := opened_stage hreq hledger hrec
        (.trans (by simp) (relay_extends hrelay)) hopen
      have hstage1 := (hstage.inert (x := .frame (acceptedEvent request) bytes none) trivial).inert
        (x := .sendStreaming) trivial
      refine ⟨t, haccepted, relay_ends hset hrec (Nat.zero_le _) hstage1 ?_ hrelay⟩
      rw [latencies_concat rfl, latencies_concat rfl, hunread]

end Accepted

/-- **Terminal completeness.** With a ledger that takes exactly the valid
events, an accepted invocation has exactly one terminal event, and none
of its events was rejected, exactly when no reading for the latency is a
millisecond or more before the start. -/
theorem dispatch_terminalComplete (hvalidated : request.Validated) (hledger : env.IdealLedger)
    (hrun : log = (env.dispatchNonStreamingWithLedger request targetErr []).2
      ∨ log = (env.dispatchStreamingWithLedger request []).2)
    (hrec : env.Recordable request targetErr log)
    (hcreated : ∃ e ∈ committed log, e.type = .created) :
    ∃ t, [.now t, .append false (Env.createdEvent request t.truncateMicro) true] <+: log
      ∧ (TerminalComplete env log ↔
        ∀ t', .since t' ∈ log → t.truncateMicro - 1000000 < t') := by
  have hreq := hvalidated.traceable
  obtain ⟨e, he, -⟩ := hcreated
  have hcommitted : committed log ≠ [] := List.ne_nil_of_mem he
  obtain ⟨t, haccepted, hends⟩ : ∃ t, accepted request t <+: log
      ∧ Ends env t.truncateMicro log := by
    rcases hrun with rfl | rfl
    · exact jsonRun_ends hreq hledger hrec hcommitted (jsonRun hreq targetErr)
    · exact streamRun_ends hreq hledger hrec hcommitted (streamRun hreq)
  refine ⟨t, haccepted, hends.trans ?_⟩
  exact forall_congr' fun t' => imp_congr_left mem_latencies

end Whole

/-! ## A ledger that is ideal -/

/-- The event is not earlier than the last one. -/
def inOrder (es : List InvocationEventV03) (e : InvocationEventV03) : Bool :=
  match es.getLast?.bind fun last => Rfc3339.parse last.occurredAt, Rfc3339.parse e.occurredAt with
  | some t, some t' => decide (t ≤ t')
  | _, _ => true

theorem inOrder_iff {es : List InvocationEventV03} :
    inOrder es e = true ↔ ∀ last ∈ es.getLast?, ∀ t t', Rfc3339.parse last.occurredAt = some t →
      Rfc3339.parse e.occurredAt = some t' → t ≤ t' := by
  unfold inOrder
  cases es.getLast? with
  | none => simp
  | some last =>
      cases hlast : Rfc3339.parse last.occurredAt <;> cases Rfc3339.parse e.occurredAt <;>
        simp [hlast]

/-- The ledger checks everything, and nothing else can fail. -/
def Env.ideal [Semver] (env : Env) : Env :=
  { env with
    append := fun log grace event => (grace || (env.contextErr log).isNone)
      && ((fresh.nextAll (committed log)).accept event).isOk && inOrder (committed log) event }

theorem accept_isOk_iff [Semver] {v : RuntimeInvocationSequenceValidator} :
    (v.accept e).isOk = true ↔ validateInvocationEventV03 e = .ok () ∧ v.Admits e := by
  constructor
  · intro h
    cases haccept : v.accept e with
    | ok v' => exact ⟨(accept_ok_iff.mp haccept).1, (accept_ok_iff.mp haccept).2.1⟩
    | error err =>
        rw [haccept] at h
        exact nomatch h
  · rintro ⟨hvalid, hadmits⟩
    rw [accept_ok_iff.mpr ⟨hvalid, hadmits, rfl⟩]
    rfl

theorem Env.ideal_append_iff [Semver] {grace : Bool} : env.ideal.append log grace event = true ↔
      (grace = true ∨ env.contextErr log = none) ∧ ValidNext (committed log) event := by
  simp only [Env.ideal, Bool.and_eq_true, Bool.or_eq_true, Option.isNone_iff_eq_none,
    accept_isOk_iff, inOrder_iff, and_assoc]
  refine and_congr_right fun _ => ⟨fun h => ?_, fun h => ⟨h.valid, h.admitted, h.ordered⟩⟩
  exact ⟨h.1, h.2.1, h.2.2⟩

theorem Env.ideal_idealLedger [Semver] (env : Env) : env.ideal.IdealLedger where
  first log grace event hnone happend := by
    obtain ⟨hlive, hvalid⟩ := Env.ideal_append_iff.mp happend
    exact ⟨hlive, hnone ▸ hvalid⟩
  next log grace event _ := Env.ideal_append_iff

/-- An agent whose stream is one event. -/
def Env.completing [Semver] : Env := (Env.calm [.ok completingEvent]).ideal

theorem dispatch_terminalComplete_completing :
    letI := Semver.only ["1.0.0"]
    sampleRequest.Validated ∧ Env.completing.IdealLedger
      ∧ ∀ log ∈ [(Env.completing.dispatchNonStreamingWithLedger sampleRequest none []).2,
          (Env.completing.dispatchStreamingWithLedger sampleRequest []).2],
        ∃ t : Time,
          [.now t, .append false (Env.createdEvent sampleRequest t.truncateMicro) true] <+: log
            ∧ (TerminalComplete Env.completing log ↔
              ∀ t', .since t' ∈ log → t.truncateMicro - 1000000 < t') := by
  let _ := Semver.only ["1.0.0"]
  have hvalidated : sampleRequest.Validated := .inl (by decide +kernel)
  have hledger := Env.ideal_idealLedger (Env.calm [.ok completingEvent])
  refine ⟨hvalidated, hledger, fun log hlog => ?_⟩
  have hfacts : (∀ x ∈ log, (match x with
        | .now t => decide (t = (63900000000000000000 : Int))
        | _ => true) = true) ∧ ∃ e ∈ committed log, e.type = .created := by
    revert log
    decide +kernel
  obtain ⟨hstanding, hcreated⟩ := hfacts
  have hrec : Env.completing.Recordable sampleRequest none log := by
    refine ⟨by simp, ?_, ?_, ?_, .inl ⟨(acceptedEvent sampleRequest).marshal.getD [], ?_, ?_⟩, ?_⟩
    · simp [Env.completing, Env.ideal, Env.calm]
    · simp [Env.completing, Env.ideal, Env.calm]
    · rintro _ (_ | ⟨_, ⟨⟩⟩) - hother -
      exact absurd rfl hother
    · decide +kernel
    · decide +kernel
    · intro t ht
      obtain rfl : t = (63900000000000000000 : Int) := of_decide_eq_true (hstanding _ ht)
      decide +kernel
  exact dispatch_terminalComplete hvalidated hledger (by simpa using hlog) hrec hcreated

/-- A clock that goes back two milliseconds after its first reading. -/
def Env.regressing : Env :=
  { Env.calm [] with
    now := fun log => if log.isEmpty then 63900000000000000000 else 63899999999998000000 }

/-- The agent answers, but the ledger refuses the outcome with its
negative latency, and the invocation stays open. -/
theorem regressing_incomplete :
    letI := Semver.only ["1.0.0"]
    sampleRequest.Validated ∧ Env.regressing.ideal.IdealLedger
      ∧ (∃ e ∈ committed
          (Env.regressing.ideal.dispatchNonStreamingWithLedger sampleRequest none []).2,
        e.type = .created)
      ∧ ¬TerminalComplete Env.regressing.ideal
        (Env.regressing.ideal.dispatchNonStreamingWithLedger sampleRequest none []).2 := by
  let _ := Semver.only ["1.0.0"]
  generalize hlog :
    (Env.regressing.ideal.dispatchNonStreamingWithLedger sampleRequest none []).2 = log
  have hfacts : (∃ e ∈ committed log, e.type = .created) ∧ outcomes log = [] := by
    rw [← hlog]
    decide +kernel
  refine ⟨.inl (by decide +kernel), Env.ideal_idealLedger _, hfacts.1, fun h => ?_⟩
  have honce := h.once
  rw [hfacts.2] at honce
  exact nomatch honce

end Dispatch

end Nekiro
