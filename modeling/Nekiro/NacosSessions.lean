import Nekiro.Logged
import Nekiro.NacosRegistrar

/-!
# What a session does

Which requests a session sends and in which order (`Allowed`), proved over
its steps. A session is apart until its `Register` call puts it in the map,
and its log is then one of a few (`Session.Recorded`); once it is held, its
loop and its close decide what may come next (`Session.Held`).

The registrar sees four things of a session (`Session.SeenAs`), and no step
of its own changes one of them.
-/

namespace Nekiro

open Json Guard Strings
open Logged (Lawful lawful_nil lawful_concat)

namespace Registry.Nacos

/-! ## Sessions -/

def Act.isBeaten : Act → Bool
  | beaten _ => true
  | _ => false

/-- When a session may do this after what it did before. -/
def Allowed (pre : List Act) : Act → Prop
  | .post => pre = []
  | .posted _ => pre = [.post]
  | .loopStarted => pre = [.post, .posted true]
  | .beat => .posted true ∈ pre ∧ .delete ∉ pre ∧ .beaten false ∉ pre ∧ .loopStopped ∉ pre
      ∧ pre.count .beat = pre.countP Act.isBeaten
  | .beaten _ => pre.count .beat = pre.countP Act.isBeaten + 1
  | .loopStopped => .loopStarted ∈ pre ∧ .loopStopped ∉ pre
      ∧ pre.count .beat = pre.countP Act.isBeaten
  | .delete => .posted true ∈ pre ∧ .delete ∉ pre ∧ (.loopStarted ∈ pre → .loopStopped ∈ pre)
  | .deleted _ => .delete ∈ pre
  | .gaveUp => .loopStarted ∈ pre

namespace RegisterPhase

/-- Between the check and the lock after the answer. -/
def isPosting : RegisterPhase → Bool
  | posting | sending | posted _ => true
  | _ => false

def isActive : RegisterPhase → Bool
  | returned _ => false
  | _ => true

/-- The session was put in the map. -/
def isHeld : RegisterPhase → Bool
  | finishing held | returned held => held
  | _ => false

end RegisterPhase

namespace ClosePhase

/-- The wait for the loop is over. -/
def waited : ClosePhase → Bool
  | deleting | ending _ | removing | done => true
  | fresh | started | waiting => false

/-- The request has ended, or there was none. -/
def ended : ClosePhase → Bool
  | ending _ | removing | done => true
  | fresh | started | waiting | deleting => false

def terminated : ClosePhase → Bool
  | removing | done => true
  | fresh | started | waiting | deleting | ending _ => false

@[simp] theorem waited_enter (c : ClosePhase) : c.enter.waited = c.waited := by cases c <;> rfl

@[simp] theorem ended_enter (c : ClosePhase) : c.enter.ended = c.ended := by cases c <;> rfl

@[simp] theorem terminated_enter (c : ClosePhase) : c.enter.terminated = c.terminated := by
  cases c <;> rfl

@[simp] theorem enter_eq_done_iff {c : ClosePhase} : c.enter = .done ↔ c = .done := by
  cases c <;> simp [enter]

theorem enter_eq_deleting_iff {c : ClosePhase} : c.enter = .deleting ↔ c = .deleting := by
  cases c <;> simp [enter]

end ClosePhase

namespace LoopPhase

/-- Heartbeats without an answer. -/
def inFlight : LoopPhase → Nat
  | beating => 1
  | _ => 0

/-- The lease was ended, if a heartbeat failed. -/
def settled : LoopPhase → Bool
  | halting | returning | stopped => true
  | absent | idle | beating | failing _ => false

end LoopPhase

namespace Session

/-- The registration was taken back, or the close has given up waiting. -/
def Resolved (s : Session) : Prop := .delete ∈ s.log ∨ .gaveUp ∈ s.log

/-- What a call of `Register` that returns no lease has done. -/
def Refused (log : List Act) : Prop :=
  log = [] ∨ log = [.post, .posted false]
    ∨ ∃ ok, log = [.post, .posted true, .delete, .deleted ok]

/-- The log of a session that is not held. -/
def Recorded (s : Session) : Prop :=
  match s.register with
  | .posting => s.log = []
  | .sending => s.log = if sendable s.inst then [.post] else []
  | .posted none | .cleaning => sendable s.inst = true ∧ s.log = [.post, .posted true]
  | .posted (some _) => s.log = [] ∨ s.log = [.post, .posted false]
  | .deleting => sendable s.inst = true ∧ s.log = [.post, .posted true, .delete]
  | .terminating => ∃ ok, s.log = [.post, .posted true, .delete, .deleted ok]
  | .finishing _ | .returned _ => Refused s.log

structure Apart (s : Session) : Prop where
  loop : s.loop = .absent
  close : s.close = .fresh
  leased : s.leased = false
  leaseClose : s.leaseClose = .fresh
  recorded : s.Recorded

structure Held (s : Session) : Prop where
  sendable : Nacos.sendable s.inst = true
  posted : .posted true ∈ s.log
  started : .loopStarted ∈ s.log
  present : s.loop ≠ .absent
  stopped : .loopStopped ∈ s.log ↔ s.loop = .stopped
  running : s.loop = .idle ∨ s.loop = .beating → .beaten false ∉ s.log
  inFlight : s.log.count .beat = s.log.countP Act.isBeaten + s.loop.inFlight
  deleted : .delete ∈ s.log → s.loop = .stopped ∧ s.close.waited = true
  deleting : s.close = .deleting → .delete ∈ s.log
  ended : s.close.ended = true → s.Resolved
  leaseClosed : s.leaseClose = .done → s.close = .done
  terminated : s.close.terminated = true → s.terminal.isSome = true
  failed : .beaten false ∈ s.log → s.loop.settled = true → s.terminal.isSome = true

structure Inv (s : Session) : Prop where
  lawful : Lawful Allowed s.log
  apart : s.register.isHeld = false → s.Apart
  held : s.register.isHeld = true → s.Held

/-- What stays of a session whatever it does. -/
structure Follows (s s' : Session) : Prop where
  log : s.log <+: s'.log
  terminal : ∀ err, s.terminal = some err → s'.terminal = some err
  done : s.close = .done → s'.close = .done
  held : s.register.isHeld = true → s'.register.isHeld = true
  returned : s.register.isActive = false → s'.register.isActive = false
  posting : s'.register = .posting → s.register = .posting
  post : .post ∈ s'.log → .post ∈ s.log ∨ s.register = .posting

/-- The registrar sees the same of both. -/
structure SeenAs (s s' : Session) : Prop where
  posting : s'.register.isPosting = s.register.isPosting
  active : s'.register.isActive = s.register.isActive
  held : s'.register.isHeld = s.register.isHeld
  done : s'.close = .done ↔ s.close = .done

/-! ### Updates -/

@[simp] theorem send_of_sendable {s : Session} (h : sendable s.inst = true) (act : Act) :
    s.send act = s.record act := if_pos h

@[simp] theorem answered_of_sendable {s : Session} (h : sendable s.inst = true) (act : Bool → Act)
    (err : Option OutcomeError) : s.answered act err = s.record (act err.isNone) := if_pos h

theorem terminate_isSome (s : Session) (err : Option OutcomeError) :
    (s.terminate err).terminal.isSome = true := by
  rw [terminate]
  cases s.terminal <;> rfl

theorem terminal_terminate {s : Session} {e : OutcomeError} (h : s.terminal = some e)
    (err : Option OutcomeError) : (s.terminate err).terminal = some e := by
  rw [terminate, h]
  rfl

theorem send_eq (s : Session) (act : Act) :
    s.send act = { s with log := s.log ++ if sendable s.inst then [act] else [] } := by
  rw [send]
  split_ifs
  · rfl
  · rw [List.append_nil]

theorem answered_eq (s : Session) (act : Bool → Act) (err : Option OutcomeError) :
    s.answered act err =
      { s with log := s.log ++ if sendable s.inst then [act err.isNone] else [] } := by
  rw [answered]
  split_ifs
  · rfl
  · rw [List.append_nil]

theorem Follows.refl (s : Session) : s.Follows s :=
  ⟨List.prefix_rfl, fun _ h => h, fun h => h, fun h => h, fun h => h, fun h => h, .inl⟩

theorem Follows.trans {s s' s'' : Session} (h : s.Follows s') (h' : s'.Follows s'') :
    s.Follows s'' :=
  ⟨h.log.trans h'.log, fun err he => h'.terminal err (h.terminal err he),
    fun hd => h'.done (h.done hd), fun hd => h'.held (h.held hd),
    fun hd => h'.returned (h.returned hd), fun hd => h.posting (h'.posting hd),
    fun hp => (h'.post hp).elim h.post fun hd => .inr (h.posting hd)⟩

theorem Follows.resolved {s s' : Session} (h : s.Follows s') (hresolved : s.Resolved) :
    s'.Resolved :=
  hresolved.imp (fun hm => h.log.subset hm) fun hm => h.log.subset hm

end Session

variable {config : RegistrarConfig} {s s' : Session}

theorem SessionMoves.seenAs (h : SessionMoves config s s') : s.SeenAs s' := by
  cases h <;> constructor <;>
    simp_all [Session.send_eq, Session.answered_eq, Session.terminate, Session.record,
      RegisterPhase.isPosting, RegisterPhase.isActive, RegisterPhase.isHeld]

theorem SessionMoves.follows (h : SessionMoves config s s') : s.Follows s' := by
  refine ⟨?_, ?_, h.seenAs.done.mpr, h.seenAs.held.trans, h.seenAs.active.trans, ?_, ?_⟩
  · cases h with
    | sendPost | sendCleanup | tick | closeDelete =>
        rw [Session.send_eq]
        exact List.prefix_append _ _
    | postEnded | cleanupEnded | beatEnded | closeEnded =>
        rw [Session.answered_eq]
        exact List.prefix_append _ _
    | loopReturn | closeGiveUp => exact List.prefix_append _ _
    | cleanupTerminate | loopTerminate | loopHalt | loopStop | leaseClose | leaseEnter | leaseLeave
    | closeStop | closeTerminate => exact List.prefix_rfl
  · intro err hterminal
    cases h with
    | sendPost | sendCleanup | tick | closeDelete =>
        rw [Session.send_eq]
        exact hterminal
    | postEnded | cleanupEnded | beatEnded | closeEnded =>
        rw [Session.answered_eq]
        exact hterminal
    | cleanupTerminate | loopTerminate | closeTerminate =>
        exact Session.terminal_terminate hterminal _
    | loopReturn | closeGiveUp | loopHalt | loopStop | leaseClose | leaseEnter | leaseLeave
    | closeStop => exact hterminal
  · cases h <;> simp [Session.send_eq, Session.answered_eq, Session.terminate, Session.record]
  · cases h <;>
      simp_all [Session.send_eq, Session.answered_eq, Session.terminate, Session.record]

/-- Only the `Register` call moves a session that is apart. -/
theorem SessionMoves.apart (h : SessionMoves config s s') (hs : s.Apart) : s'.Apart := by
  obtain ⟨hloop, hclose, hleased, hlease, hrec⟩ := hs
  cases h with
  | sendPost hr =>
      simp only [Session.Recorded, hr] at hrec
      rw [Session.send_eq]
      refine ⟨hloop, hclose, hleased, hlease, ?_⟩
      simp only [Session.Recorded, hrec, List.nil_append]
  | postEnded reply hr =>
      simp only [Session.Recorded, hr] at hrec
      rw [Session.answered_eq]
      refine ⟨hloop, hclose, hleased, hlease, ?_⟩
      cases hsend : sendable s.inst with
      | false =>
          simp [Session.Recorded, Session.outcome, hsend, hrec]
      | true =>
          cases hout : s.outcome saysOk reply with
          | none => simp [Session.Recorded, hsend, hrec]
          | some err => simp [Session.Recorded, hsend, hrec]
  | sendCleanup hr =>
      simp only [Session.Recorded, hr] at hrec
      rw [Session.send_eq]
      refine ⟨hloop, hclose, hleased, hlease, ?_⟩
      simp [Session.Recorded, hrec]
  | cleanupEnded reply hr =>
      simp only [Session.Recorded, hr] at hrec
      rw [Session.answered_eq]
      refine ⟨hloop, hclose, hleased, hlease, ?_⟩
      simp [Session.Recorded, hrec]
  | cleanupTerminate hr =>
      simp only [Session.Recorded, hr] at hrec
      exact ⟨hloop, hclose, hleased, hlease, .inr (.inr hrec)⟩
  | tick h | loopTerminate _ h | loopHalt h | loopStop h | loopReturn h | beatEnded _ h =>
      rw [hloop] at h
      cases h
  | leaseClose h =>
      rw [hleased] at h
      cases h
  | leaseEnter h | leaseLeave h =>
      rw [hlease] at h
      cases h
  | closeStop h | closeDelete h | closeGiveUp _ h | closeEnded _ h | closeTerminate _ h =>
      rw [hclose] at h
      cases h

namespace Session

theorem Inv.held_of_loop (hs : s.Inv) (h : s.loop ≠ .absent) : s.Held := by
  refine hs.held ?_
  cases hheld : s.register.isHeld with
  | true => rfl
  | false => exact absurd (hs.apart hheld).loop h

theorem Inv.held_of_close (hs : s.Inv) (h : s.close ≠ .fresh) : s.Held := by
  refine hs.held ?_
  cases hheld : s.register.isHeld with
  | true => rfl
  | false => exact absurd (hs.apart hheld).close h

theorem Inv.close_eq_done (hs : s.Inv) (h : s.leaseClose = .done) : s.close = .done := by
  cases hheld : s.register.isHeld with
  | true => exact (hs.held hheld).leaseClosed h
  | false =>
      rw [(hs.apart hheld).leaseClose] at h
      cases h

theorem Held.delete_notMem_of_loop (hs : s.Held) (h : s.loop ≠ .stopped) : .delete ∉ s.log :=
  fun hmem => h (hs.deleted hmem).1

theorem Held.delete_notMem_of_close (hs : s.Held) (h : s.close.waited = false) :
    .delete ∉ s.log := by
  intro hmem
  rw [(hs.deleted hmem).2] at h
  cases h

theorem Held.loopStopped_notMem (hs : s.Held) (h : s.loop ≠ .stopped) : .loopStopped ∉ s.log :=
  fun hmem => h (hs.stopped.mp hmem)

/-- Another call of `session.close`. -/
theorem Held.enter {phase : LeaseClosePhase} (hs : s.Held)
    (hphase : phase = .done → s.leaseClose = .done) :
    { s with leaseClose := phase, close := s.close.enter }.Held :=
  { hs with
    deleted := fun hmem =>
      ⟨(hs.deleted hmem).1, (ClosePhase.waited_enter _).trans (hs.deleted hmem).2⟩
    deleting := fun hc => hs.deleting (ClosePhase.enter_eq_deleting_iff.mp hc)
    ended := fun hc => hs.ended (by simpa using hc)
    leaseClosed := fun h => ClosePhase.enter_eq_done_iff.mpr (hs.leaseClosed (hphase h))
    terminated := fun hc => hs.terminated (by simpa using hc) }

theorem Resolved.record (h : s.Resolved) (act : Act) : (s.record act).Resolved :=
  h.imp (List.mem_append_left _) (List.mem_append_left _)

theorem lawful_append_ite {log : List Act} {act : Act} (c : Prop) [Decidable c]
    (hlog : Lawful Allowed log) (hact : c → Allowed log act) :
    Lawful Allowed (log ++ if c then [act] else []) := by
  split_ifs with hc
  · exact lawful_concat.mpr ⟨hlog, hact hc⟩
  · rwa [List.append_nil]

end Session

open Session in
theorem SessionMoves.lawful (h : SessionMoves config s s') (hs : s.Inv) :
    Lawful Allowed s'.log := by
  cases h with
  | sendPost hr =>
      have hrec := (hs.apart (by rw [hr]; rfl)).recorded
      simp only [Session.Recorded, hr] at hrec
      rw [send_eq]
      exact lawful_append_ite _ hs.lawful fun _ => hrec
  | postEnded reply hr =>
      have hrec := (hs.apart (by rw [hr]; rfl)).recorded
      simp only [Session.Recorded, hr] at hrec
      rw [answered_eq]
      exact lawful_append_ite _ hs.lawful fun hsend => hrec.trans (if_pos hsend)
  | sendCleanup hr =>
      have hrec := (hs.apart (by rw [hr]; rfl)).recorded
      simp only [Session.Recorded, hr] at hrec
      rw [send_eq]
      refine lawful_append_ite _ hs.lawful fun _ => ?_
      rw [hrec.2]
      simp [Allowed]
  | cleanupEnded reply hr =>
      have hrec := (hs.apart (by rw [hr]; rfl)).recorded
      simp only [Session.Recorded, hr] at hrec
      rw [answered_eq]
      refine lawful_append_ite _ hs.lawful fun _ => ?_
      rw [hrec.2]
      simp [Allowed]
  | tick hl =>
      have hne : s.loop ≠ .absent ∧ s.loop ≠ .stopped := by simp [hl]
      have hheld := hs.held_of_loop hne.1
      rw [send_eq]
      refine lawful_append_ite _ hs.lawful fun _ =>
        ⟨hheld.posted, hheld.delete_notMem_of_loop hne.2, hheld.running (.inl hl),
          hheld.loopStopped_notMem hne.2, ?_⟩
      simpa [hl, LoopPhase.inFlight] using hheld.inFlight
  | beatEnded reply hl =>
      have hheld := hs.held_of_loop (by simp [hl])
      rw [answered_eq]
      refine lawful_append_ite _ hs.lawful fun _ => ?_
      simpa [Allowed, hl, LoopPhase.inFlight] using hheld.inFlight
  | loopReturn hl =>
      have hheld := hs.held_of_loop (by simp [hl])
      refine lawful_concat.mpr
        ⟨hs.lawful, hheld.started, hheld.loopStopped_notMem (by simp [hl]), ?_⟩
      simpa [hl, LoopPhase.inFlight] using hheld.inFlight
  | closeDelete hc hl =>
      have hheld := hs.held_of_close (by simp [hc])
      rw [send_eq]
      exact lawful_append_ite _ hs.lawful fun _ =>
        ⟨hheld.posted, hheld.delete_notMem_of_close (by rw [hc]; rfl),
          fun _ => hheld.stopped.mpr hl⟩
  | closeGiveUp err hc =>
      exact lawful_concat.mpr ⟨hs.lawful, (hs.held_of_close (by simp [hc])).started⟩
  | closeEnded reply hc =>
      rw [answered_eq]
      exact lawful_append_ite _ hs.lawful fun _ => (hs.held_of_close (by simp [hc])).deleting hc
  | cleanupTerminate | loopTerminate | loopHalt | loopStop | leaseClose | leaseEnter | leaseLeave
  | closeStop | closeTerminate => exact hs.lawful

open Session in
/-- The loop and the close move a session that is held. -/
theorem SessionMoves.held (h : SessionMoves config s s') (hs : s.Held)
    (hheld : s.register.isHeld = true) : s'.Held := by
  have hsend := hs.sendable
  cases h with
  | sendPost hr | postEnded _ hr | sendCleanup hr | cleanupEnded _ hr | cleanupTerminate hr =>
      rw [hr] at hheld
      cases hheld
  | tick hl =>
      have hdelete := hs.delete_notMem_of_loop (by simp [hl])
      rw [send_of_sendable hsend]
      exact
        { hs with
          posted := List.mem_append_left _ hs.posted
          started := List.mem_append_left _ hs.started
          present := nofun
          stopped := by simp [record, hs.stopped, hl]
          running := fun _ => by simp [record, hs.running (.inl hl)]
          inFlight := by simp [record, hs.inFlight, hl, LoopPhase.inFlight, Act.isBeaten]
          deleted := by simp [record, hdelete]
          deleting := fun hc => List.mem_append_left _ (hs.deleting hc)
          ended := fun hc => (hs.ended hc).record _
          failed := nofun }
  | beatEnded reply hl =>
      have hdelete := hs.delete_notMem_of_loop (by simp [hl])
      rw [answered_of_sendable hsend]
      generalize s.outcome (acceptsBeat config.heartbeatInterval) reply = err
      refine
        { hs with
          posted := List.mem_append_left _ hs.posted
          started := List.mem_append_left _ hs.started
          present := by cases err <;> nofun
          stopped := ?_
          running := ?_
          inFlight := ?_
          deleted := by simp [record, hdelete]
          deleting := fun hc => List.mem_append_left _ (hs.deleting hc)
          ended := fun hc => (hs.ended hc).record _
          failed := ?_ }
      · cases err <;> simp [record, hs.stopped, hl]
      · cases err <;> simp [record, hs.running (.inr hl)]
      · cases err <;> simp [record, hs.inFlight, hl, LoopPhase.inFlight, Act.isBeaten]
      · cases err <;> simp [LoopPhase.settled]
  | loopTerminate err hl =>
      exact
        { hs with
          present := nofun
          stopped := by simp [terminate, hs.stopped, hl]
          running := by simp
          inFlight := by simp [terminate, hs.inFlight, hl, LoopPhase.inFlight]
          deleted := fun hmem => absurd hmem (hs.delete_notMem_of_loop (by simp [hl]))
          terminated := fun _ => s.terminate_isSome _
          failed := fun _ _ => s.terminate_isSome _ }
  | loopHalt hl =>
      exact
        { hs with
          present := nofun
          stopped := by simp [hs.stopped, hl]
          running := by simp
          inFlight := by simp [hs.inFlight, hl, LoopPhase.inFlight]
          deleted := fun hmem => absurd hmem (hs.delete_notMem_of_loop (by simp [hl]))
          failed := fun hmem _ => hs.failed hmem (by rw [hl]; rfl) }
  | loopStop hl =>
      exact
        { hs with
          present := nofun
          stopped := by simp [hs.stopped, hl]
          running := by simp
          inFlight := by simp [hs.inFlight, hl, LoopPhase.inFlight]
          deleted := fun hmem => absurd hmem (hs.delete_notMem_of_loop (by simp [hl]))
          failed := fun hmem _ => absurd hmem (hs.running (.inl hl)) }
  | loopReturn hl =>
      have hdelete := hs.delete_notMem_of_loop (by simp [hl])
      exact
        { hs with
          posted := List.mem_append_left _ hs.posted
          started := List.mem_append_left _ hs.started
          present := nofun
          stopped := by simp [record]
          running := by simp
          inFlight := by simp [record, hs.inFlight, hl, LoopPhase.inFlight, Act.isBeaten]
          deleted := by simp [record, hdelete]
          deleting := fun hc => List.mem_append_left _ (hs.deleting hc)
          ended := fun hc => (hs.ended hc).record _
          failed := fun hmem _ => hs.failed (by simpa [record] using hmem) (by rw [hl]; rfl) }
  | leaseClose => exact { hs with leaseClosed := nofun }
  | leaseEnter => exact hs.enter nofun
  | leaseLeave _ hdone => exact { hs with leaseClosed := fun _ => hdone }
  | closeStop hc =>
      exact
        { hs with
          deleted := fun hmem =>
            absurd hmem (hs.delete_notMem_of_close (by rw [hc]; rfl))
          deleting := nofun
          ended := nofun
          leaseClosed := fun hlease => by rw [hs.leaseClosed hlease] at hc; cases hc
          terminated := nofun }
  | closeDelete hc hl =>
      rw [send_of_sendable hsend]
      exact
        { hs with
          posted := List.mem_append_left _ hs.posted
          started := List.mem_append_left _ hs.started
          stopped := by simp [record, hs.stopped]
          running := by simp [record, hl]
          inFlight := by simpa [record, Act.isBeaten] using hs.inFlight
          deleted := fun _ => ⟨hl, rfl⟩
          deleting := fun _ => by simp [record]
          ended := nofun
          leaseClosed := fun hlease => by rw [hs.leaseClosed hlease] at hc; cases hc
          terminated := nofun
          failed := fun hmem => hs.failed (by simpa [record] using hmem) }
  | closeGiveUp err hc =>
      exact
        { hs with
          posted := List.mem_append_left _ hs.posted
          started := List.mem_append_left _ hs.started
          stopped := by simp [record, hs.stopped]
          running := fun hl => by simpa [record] using hs.running hl
          inFlight := by simpa [record, Act.isBeaten] using hs.inFlight
          deleted := fun hmem => absurd (by simpa [record] using hmem)
            (hs.delete_notMem_of_close (by rw [hc]; rfl))
          deleting := nofun
          ended := fun _ => .inr (by simp [record])
          leaseClosed := fun hlease => by rw [hs.leaseClosed hlease] at hc; cases hc
          terminated := nofun
          failed := fun hmem => hs.failed (by simpa [record] using hmem) }
  | closeEnded reply hc =>
      have hdelete := hs.deleting hc
      rw [answered_of_sendable hsend]
      exact
        { hs with
          posted := List.mem_append_left _ hs.posted
          started := List.mem_append_left _ hs.started
          stopped := by simp [record, hs.stopped]
          running := fun hl => by simpa [record] using hs.running hl
          inFlight := by simpa [record, Act.isBeaten] using hs.inFlight
          deleted := fun _ => ⟨(hs.deleted hdelete).1, rfl⟩
          deleting := nofun
          ended := fun _ => .inl (List.mem_append_left _ hdelete)
          leaseClosed := fun hlease => by rw [hs.leaseClosed hlease] at hc; cases hc
          terminated := nofun
          failed := fun hmem => hs.failed (by simpa [record] using hmem) }
  | closeTerminate err hc =>
      have hended := hs.ended (by rw [hc]; rfl)
      exact
        { hs with
          deleted := fun hmem => ⟨(hs.deleted hmem).1, rfl⟩
          deleting := nofun
          ended := fun _ => hended
          leaseClosed := fun hlease => by rw [hs.leaseClosed hlease] at hc; cases hc
          terminated := fun _ => s.terminate_isSome _
          failed := fun _ _ => s.terminate_isSome _ }

theorem SessionMoves.inv (h : SessionMoves config s s') (hs : s.Inv) : s'.Inv where
  lawful := h.lawful hs
  apart hheld := h.apart (hs.apart (h.seenAs.held.symm.trans hheld))
  held hheld :=
    have hheld := h.seenAs.held.symm.trans hheld
    h.held (hs.held hheld) hheld

/-! ## Steps under the lock -/

namespace Session

theorem follows_leavesPosting {err : Option OutcomeError} (hphase : s.register = .posted err)
    {phase : RegisterPhase} (hposting : phase.isPosting = false) :
    s.Follows { s with register := phase } where
  log := List.prefix_rfl
  terminal _ h := h
  done h := h
  held h := by
    rw [hphase] at h
    cases h
  returned h := by
    rw [hphase] at h
    cases h
  posting h := by
    rw [show phase = .posting from h] at hposting
    cases hposting
  post := .inl

theorem follows_postHeld (hphase : s.register = .posted none) :
    s.Follows { s.record .loopStarted with register := .finishing true, loop := .idle } where
  log := List.prefix_append _ _
  terminal _ h := h
  done h := h
  held _ := rfl
  returned h := by
    rw [hphase] at h
    cases h
  posting := nofun
  post h := .inl (by simpa [record] using h)

theorem follows_registerReturn {held : Bool} (hphase : s.register = .finishing held) :
    s.Follows { s with register := .returned held, leased := held } where
  log := List.prefix_rfl
  terminal _ h := h
  done h := h
  held h := by rwa [hphase] at h
  returned _ := rfl
  posting := nofun
  post := .inl

theorem follows_remove (s : Session) : s.Follows { s with close := .done } :=
  ⟨List.prefix_rfl, fun _ h => h, fun _ => rfl, fun h => h, fun h => h, fun h => h, .inl⟩

theorem follows_enter (s : Session) : s.Follows { s with close := s.close.enter } :=
  ⟨List.prefix_rfl, fun _ h => h, ClosePhase.enter_eq_done_iff.mpr, fun h => h, fun h => h,
    fun h => h, .inl⟩

end Session

end Registry.Nacos

end Nekiro
