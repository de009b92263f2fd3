import Nekiro.NacosSessions

/-!
# What registrations leave behind

Over the runs of the registrar: one session at most is posted or held, and
what was registered is taken back by the calls that promise it. The
invariant counts the sessions that are posted and those that
`Registrar.Close` waits for, says which ones are in the map, and how far
the first `Registrar.Close` has come with those it has found
(`Registrar.Inv`). A step that leaves what the registrar sees of a session
keeps it (`Registrar.Inv.put`); the others are gone through one by one.
-/

namespace Nekiro

open Json Guard Strings
open Logged (Lawful lawful_nil lawful_concat)

namespace Registry.Nacos

variable {config : RegistrarConfig} {r r' : Registrar} {s s' : Session} {sid : Nat}

/-! ## The invariant -/

namespace RegistrarClosePhase

def found : RegistrarClosePhase → List Nat
  | notCalled => []
  | waiting found | closing _ found | inSession _ _ found | returned found => found

/-- The sessions it has still to see closed. -/
def pending : RegistrarClosePhase → List Nat
  | notCalled | returned _ => []
  | waiting found => found
  | closing todo _ => todo
  | inSession sid todo _ => sid :: todo

/-- The `Register` calls are over. -/
def waited : RegistrarClosePhase → Bool
  | notCalled | waiting _ => false
  | closing _ _ | inSession _ _ _ | returned _ => true

def called : RegistrarClosePhase → Bool
  | notCalled => false
  | waiting _ | closing _ _ | inSession _ _ _ | returned _ => true

end RegistrarClosePhase

namespace Registrar

structure Inv (r : Registrar) : Prop where
  sessions : ∀ sid s, r.Has sid s → s.Inv
  posting : r.sessions.countP (·.register.isPosting) = r.registering.toNat
  waits : r.sessions.countP (·.register.isActive) = r.registerWG
  alone : r.registering = true → r.held = []
  one : r.held.length ≤ 1
  holds : ∀ sid, sid ∈ r.held ↔ ∃ s, r.Has sid s ∧ s.register.isHeld = true ∧ s.close ≠ .done
  called : r.close.called = r.closed
  found : r.closed = true → ∀ sid ∈ r.held, sid ∈ r.close.found
  foundHeld : ∀ sid ∈ r.close.found, ∃ s, r.Has sid s ∧ s.register.isHeld = true
  pending : ∀ sid ∈ r.close.pending, sid ∈ r.close.found
  finished : ∀ sid ∈ r.close.found, sid ∉ r.close.pending → ∃ s, r.Has sid s ∧ s.close = .done
  waited : r.close.waited = true → r.registerWG = 0

theorem inv_new : new.Inv where
  sessions := by simp [Has, new]
  posting := rfl
  waits := rfl
  alone _ := rfl
  one := Nat.zero_le _
  holds := by simp [Has, new]
  called := rfl
  found := nofun
  foundHeld := nofun
  pending := nofun
  finished := nofun
  waited := nofun

/-! ## Putting a session back -/

theorem Has.unique (h : r.Has sid s) (h' : r.Has sid s') : s = s' :=
  Option.some.inj (h.symm.trans h')

theorem has_put_self (h : r.Has sid s) (s' : Session) : (r.put sid s').Has sid s' := by
  obtain ⟨hlt, -⟩ := List.getElem?_eq_some_iff.mp h
  simp [Has, put, hlt]

theorem has_put_of_ne {i : Nat} (hne : sid ≠ i) {t : Session} :
    (r.put sid s').Has i t ↔ r.Has i t := by
  simp [Has, put, List.getElem?_set_ne hne]

theorem has_put_cases {i : Nat} {t : Session} (h : r.Has sid s) (ht : (r.put sid s').Has i t) :
    i = sid ∧ t = s' ∨ i ≠ sid ∧ r.Has i t := by
  rcases eq_or_ne sid i with rfl | hne
  · exact .inl ⟨rfl, ht.unique (has_put_self h s')⟩
  · exact .inr ⟨hne.symm, (has_put_of_ne hne).mp ht⟩

/-- What the others have, they keep; the one put back has what it has. -/
theorem exists_has_put {P : Session → Prop} {i : Nat} (h : r.Has sid s)
    (hi : ∃ t, r.Has i t ∧ P t) (hP : P s → P s') : ∃ t, (r.put sid s').Has i t ∧ P t := by
  obtain ⟨t, ht, hPt⟩ := hi
  rcases eq_or_ne sid i with rfl | hne
  · exact ⟨s', has_put_self h s', hP (ht.unique h ▸ hPt)⟩
  · exact ⟨t, (has_put_of_ne hne).mpr ht, hPt⟩

theorem countP_put (h : r.Has sid s) (s' : Session) (p : Session → Bool) :
    (r.put sid s').sessions.countP p + (p s).toNat = r.sessions.countP p + (p s').toNat := by
  obtain ⟨l₁, l₂, hl, hset⟩ := exists_set_eq h
  rw [put, hset, hl]
  cases hs : p s <;> cases hs' : p s' <;> simp [List.countP_append, hs, hs'] <;> omega

section Inv

variable (hr : r.Inv)

include hr

theorem Inv.isPosting (h : r.Has sid s) (hs : s.register.isPosting = true) :
    r.registering = true := by
  have hpos : 0 < r.registering.toNat :=
    hr.posting ▸ List.countP_pos_iff.mpr ⟨s, List.mem_of_getElem? h, hs⟩
  cases hreg : r.registering with
  | true => rfl
  | false =>
      rw [hreg] at hpos
      cases hpos

theorem Inv.isHeld_iff (h : r.Has sid s) :
    sid ∈ r.held ↔ s.register.isHeld = true ∧ s.close ≠ .done := by
  rw [hr.holds]
  constructor
  · rintro ⟨t, ht, hi⟩
    rwa [ht.unique h] at hi
  · exact fun hi => ⟨s, h, hi⟩

/-- A step of one session, with what it does to the registrar. -/
theorem Inv.change (h : r.Has sid s) (hs' : s'.Inv) (hfollows : s.Follows s')
    {registering : Bool} {registerWG : Nat} {held : List Nat}
    (hposting : registering.toNat + s.register.isPosting.toNat =
      r.registering.toNat + s'.register.isPosting.toNat)
    (hwaits : registerWG + s.register.isActive.toNat = r.registerWG + s'.register.isActive.toNat)
    (halone : registering = true → held = []) (hone : held.length ≤ 1)
    (hothers : ∀ i, i ≠ sid → (i ∈ held ↔ i ∈ r.held))
    (hholds : sid ∈ held ↔ s'.register.isHeld = true ∧ s'.close ≠ .done)
    (hfound : r.closed = true → sid ∈ held → sid ∈ r.held) :
    ({ r with
        registering := registering
        registerWG := registerWG
        held := held }.put sid s').Inv where
  sessions i t ht := by
    rcases has_put_cases h ht with ⟨rfl, rfl⟩ | ⟨-, ht⟩
    · exact hs'
    · exact hr.sessions i t ht
  posting := by
    have hcount := countP_put h s' (·.register.isPosting)
    have hold := hr.posting
    simp only [put] at hcount ⊢
    omega
  waits := by
    have hcount := countP_put h s' (·.register.isActive)
    have hold := hr.waits
    simp only [put] at hcount ⊢
    omega
  alone := halone
  one := hone
  holds i := by
    rcases eq_or_ne i sid with rfl | hne
    · refine hholds.trans ⟨fun hi => ⟨s', has_put_self h s', hi⟩, ?_⟩
      rintro ⟨t, ht, hi⟩
      rwa [ht.unique (has_put_self h s')] at hi
    · refine (hothers i hne).trans ((hr.holds i).trans ?_)
      exact exists_congr fun t => and_congr_left' (has_put_of_ne hne.symm).symm
  called := hr.called
  found hclosed i hi := by
    refine hr.found hclosed i ?_
    rcases eq_or_ne i sid with rfl | hne
    · exact hfound hclosed hi
    · exact (hothers i hne).mp hi
  foundHeld i hi := exists_has_put h (hr.foundHeld i hi) hfollows.held
  pending := hr.pending
  finished i hi hpending := exists_has_put h (hr.finished i hi hpending) hfollows.done
  waited hwaited := by
    have hnone := hr.waited hwaited
    have hreturned : s.register.isActive = false := by
      rw [← Bool.not_eq_true]
      exact List.countP_eq_zero.mp (hr.waits.trans hnone) s (List.mem_of_getElem? h)
    rw [hreturned, hfollows.returned hreturned, hnone] at hwaits
    exact hwaits

/-- A step that the registrar does not see. -/
theorem Inv.put (h : r.Has sid s) (hs' : s'.Inv) (hfollows : s.Follows s') (hseen : s.SeenAs s') :
    (r.put sid s').Inv := by
  have hholds : sid ∈ r.held ↔ s'.register.isHeld = true ∧ s'.close ≠ .done := by
    rw [hr.isHeld_iff h, hseen.held, ne_eq, ne_eq, hseen.done]
  exact hr.change h hs' hfollows (by rw [hseen.posting]) (by rw [hseen.active]) hr.alone hr.one
    (fun _ _ => Iff.rfl) hholds fun _ hi => hi

/-- The sessions stay and `Registrar.Close` goes on. -/
theorem Inv.goesOn {close : RegistrarClosePhase} (hcalled : close.called = r.closed)
    (hfound : close.found = r.close.found)
    (hpending : ∀ sid ∈ close.pending, sid ∈ r.close.pending)
    (hfinished : ∀ sid, sid ∉ close.pending → sid ∈ r.close.pending →
      ∃ s, r.Has sid s ∧ s.close = .done)
    (hwaited : close.waited = true → r.registerWG = 0) : { r with close := close }.Inv :=
  { hr with
    called := hcalled
    found := hfound ▸ hr.found
    foundHeld := hfound ▸ hr.foundHeld
    pending := fun sid hsid => hfound ▸ hr.pending sid (hpending sid hsid)
    finished := fun sid hsid hdone => by
      rw [hfound] at hsid
      by_cases hold : sid ∈ r.close.pending
      · exact hfinished sid hdone hold
      · exact hr.finished sid hsid hold
    waited := hwaited }

/-! ## Steps under the lock -/

theorem Inv.register (hclosed : r.closed = false) (hreg : r.registering = false)
    (hheld : r.held = []) (i : Instance) :
    { r with
      registering := true
      registerWG := r.registerWG + 1
      sessions := r.sessions ++ [Session.new i] }.Inv := by
  have hnew : (Session.new i).Inv :=
    ⟨lawful_nil _, fun _ => ⟨rfl, rfl, rfl, rfl, rfl⟩, nofun⟩
  have hcases : ∀ {sid : Nat} {s : Session}, (r.sessions ++ [Session.new i])[sid]? = some s →
      r.Has sid s ∨ s = Session.new i := by
    intro sid s hs
    rcases lt_or_ge sid r.sessions.length with hlt | hge
    · exact .inl (by rwa [List.getElem?_append_left hlt] at hs)
    · rw [List.getElem?_append_right hge] at hs
      exact .inr (List.mem_singleton.mp (List.mem_of_getElem? hs))
  have hcalled := hr.called.trans hclosed
  have hclose : r.close = .notCalled := by
    cases hc : r.close with
    | notCalled => rfl
    | waiting | closing | inSession | returned =>
        rw [hc] at hcalled
        cases hcalled
  refine
    { sessions := fun sid s hs => ?_
      posting := ?_
      waits := ?_
      alone := fun _ => hheld
      one := hr.one
      holds := fun sid => ?_
      called := hr.called
      found := fun h => absurd h (by simp [hclosed])
      foundHeld := by simp [hclose, RegistrarClosePhase.found]
      pending := hr.pending
      finished := by simp [hclose, RegistrarClosePhase.found]
      waited := by simp [hclose, RegistrarClosePhase.waited] }
  · rcases hcases hs with hs | rfl
    · exact hr.sessions sid s hs
    · exact hnew
  · rw [List.countP_append, hr.posting, hreg]
    rfl
  · rw [List.countP_append, hr.waits]
    rfl
  · rw [hheld, iff_false_left List.not_mem_nil]
    rintro ⟨s, hs, hi⟩
    rcases hcases hs with hs | rfl
    · have hmem := (hr.isHeld_iff hs).mpr hi
      rw [hheld] at hmem
      cases hmem
    · cases hi.1

/-- The answer is there and there is nothing to hold. -/
theorem Inv.leavesPosting (h : r.Has sid s) {err : Option OutcomeError}
    (hphase : s.register = .posted err) {phase : RegisterPhase}
    (hposting : phase.isPosting = false) (hactive : phase.isActive = true)
    (hheld : phase.isHeld = false) (hrecorded : Session.Recorded { s with register := phase }) :
    ({ r with registering := false }.put sid { s with register := phase }).Inv := by
  have hinv := hr.sessions sid s h
  have hapart := hinv.apart (by rw [hphase]; rfl)
  have hreg := hr.isPosting h (by rw [hphase]; rfl)
  have hinv' : Session.Inv { s with register := phase } :=
    ⟨hinv.lawful, fun _ => { hapart with recorded := hrecorded }, by simp [hheld]⟩
  refine hr.change h hinv' (Session.follows_leavesPosting hphase hposting) ?_ ?_ nofun hr.one
    (fun _ _ => Iff.rfl) ?_ fun _ hi => hi
  · rw [hphase, hreg, hposting]
    rfl
  · rw [hphase, hactive]
    rfl
  · rw [hr.isHeld_iff h, hphase, hheld]
    rfl

/-- The session is put in the map and its loop starts. -/
theorem Inv.postHeld (h : r.Has sid s) (hphase : s.register = .posted none)
    (hclosed : r.closed = false) :
    ({ r with registering := false, held := r.held ++ [sid] }.put sid
      { s.record .loopStarted with register := .finishing true, loop := .idle }).Inv := by
  have hinv := hr.sessions sid s h
  have hapart := hinv.apart (by rw [hphase]; rfl)
  have hreg := hr.isPosting h (by rw [hphase]; rfl)
  have hheld := hr.alone hreg
  have hrec := hapart.recorded
  simp only [Session.Recorded, hphase] at hrec
  have hinv' : Session.Inv
      { s.record .loopStarted with register := .finishing true, loop := .idle } := by
    refine ⟨lawful_concat.mpr ⟨hinv.lawful, hrec.2⟩, (fun h => by cases h), fun _ => ?_⟩
    refine
      { sendable := hrec.1
        posted := ?_
        started := ?_
        present := fun h => by cases h
        stopped := ?_
        running := fun _ => ?_
        inFlight := ?_
        deleted := ?_
        deleting := ?_
        ended := ?_
        leaseClosed := ?_
        terminated := ?_
        failed := ?_ }
    all_goals simp [Session.record, hrec.2, hapart.close, hapart.leaseClose, ClosePhase.ended,
      ClosePhase.terminated, Act.isBeaten, LoopPhase.inFlight]
  refine hr.change h hinv' (Session.follows_postHeld hphase) ?_ ?_ (fun h => by cases h)
    (by simp [hheld]) ?_ ?_ ?_
  · rw [hphase, hreg]
    rfl
  · rw [hphase]
    rfl
  · intro i hne
    simp [hne]
  · simp [Session.record, hapart.close, RegisterPhase.isHeld]
  · intro hc
    rw [hclosed] at hc
    cases hc

theorem Inv.registerReturn (h : r.Has sid s) {held : Bool}
    (hphase : s.register = .finishing held) :
    ({ r with registerWG := r.registerWG - 1 }.put sid
      { s with register := .returned held, leased := held }).Inv := by
  have hinv := hr.sessions sid s h
  have hpos : 0 < r.registerWG :=
    hr.waits ▸ List.countP_pos_iff.mpr ⟨s, List.mem_of_getElem? h, by rw [hphase]; rfl⟩
  have hinv' : Session.Inv { s with register := .returned held, leased := held } := by
    refine ⟨hinv.lawful, fun (hheld : held = false) => ?_, fun (hheld : held = true) => ?_⟩
    · subst hheld
      have hapart := hinv.apart (by rw [hphase]; rfl)
      have hrec := hapart.recorded
      simp only [Session.Recorded, hphase] at hrec
      exact ⟨hapart.loop, hapart.close, rfl, hapart.leaseClose, hrec⟩
    · subst hheld
      exact { hinv.held (by rw [hphase]; rfl) with }
  refine hr.change h hinv' (Session.follows_registerReturn hphase) ?_ ?_ hr.alone hr.one
    (fun _ _ => Iff.rfl) ?_ fun _ hi => hi
  · rw [hphase]
    rfl
  · rw [hphase]
    exact Nat.sub_add_cancel hpos
  · rw [hr.isHeld_iff h, hphase]
    rfl

/-- The session leaves the map. -/
theorem Inv.remove (h : r.Has sid s) (hclose : s.close = .removing) :
    ({ r with held := r.held.erase sid }.put sid { s with close := .done }).Inv := by
  have hinv := hr.sessions sid s h
  have hheld := hinv.held_of_close (by simp [hclose])
  have hnodup : r.held.Nodup := by
    match r.held, hr.one with
    | [], _ => exact List.nodup_nil
    | [_], _ => exact List.nodup_singleton _
  have hregister : s.register.isHeld = true := by
    cases hr : s.register.isHeld with
    | true => rfl
    | false =>
        have := (hinv.apart hr).close
        rw [hclose] at this
        cases this
  have hinv' : Session.Inv { s with close := .done } := by
    refine ⟨hinv.lawful, fun h => absurd h (by simp [hregister]), fun _ => ?_⟩
    exact
      { hheld with
        deleted := fun hmem => ⟨(hheld.deleted hmem).1, rfl⟩
        deleting := nofun
        ended := fun _ => hheld.ended (by rw [hclose]; rfl)
        leaseClosed := fun _ => rfl
        terminated := fun _ => hheld.terminated (by rw [hclose]; rfl) }
  refine hr.change h hinv' s.follows_remove rfl rfl ?_
    ((List.length_erase_le).trans hr.one) ?_ ?_ ?_
  · intro hreg
    rw [hr.alone hreg]
    rfl
  · intro i hne
    rw [hnodup.mem_erase_iff, and_iff_right hne]
  · rw [hnodup.mem_erase_iff]
    simp
  · exact fun _ hi => List.mem_of_mem_erase hi

/-- `Registrar.Close` finds the sessions in the map. -/
theorem Inv.closeCalled {found : List Nat} (hperm : found.Perm r.held) :
    { r with closed := true, close := .waiting found }.Inv :=
  { hr with
    called := rfl
    found := fun _ _ hsid => hperm.mem_iff.mpr hsid
    foundHeld := fun sid hsid => by
      obtain ⟨s, hs, hheld, -⟩ := (hr.holds sid).mp (hperm.mem_iff.mp hsid)
      exact ⟨s, hs, hheld⟩
    pending := fun _ hsid => hsid
    finished := fun _ hsid hpending => absurd hsid hpending
    waited := nofun }

theorem Inv.closeEnter (h : r.Has sid s) {todo found : List Nat}
    (hclose : r.close = .closing (sid :: todo) found) :
    ({ r with close := .inSession sid todo found }.put sid
      { s with close := s.close.enter }).Inv := by
  have hinv := hr.sessions sid s h
  obtain ⟨t, ht, hregister⟩ := hr.foundHeld sid
    (hr.pending sid (by rw [hclose]; exact List.mem_cons_self))
  obtain rfl := ht.unique h
  have hcalled := hr.called
  have hwaited := hr.waited
  rw [hclose] at hcalled hwaited
  have hr' : { r with close := .inSession sid todo found }.Inv := by
    refine hr.goesOn hcalled (by rw [hclose]; rfl) (by rw [hclose]; exact fun _ h => h) ?_ hwaited
    rw [hclose]
    exact fun _ hnot hold => absurd hold hnot
  have hinv' : Session.Inv { t with close := t.close.enter } :=
    ⟨hinv.lawful, fun h => absurd h (by simp [hregister]), fun hheld => (hinv.held hheld).enter id⟩
  exact hr'.put h hinv' t.follows_enter ⟨rfl, rfl, rfl, ClosePhase.enter_eq_done_iff⟩

end Inv

end Registrar

open Registrar in
/-- **Every step keeps the invariant.** -/
theorem RegistrarMoves.inv [UnicodeCase] {e : RegistrarEvent} (h : RegistrarMoves config r e r')
    (hr : r.Inv) : r'.Inv := by
  cases h with
  | registerInvalid | registerClosed | registerBusy | leaseCloseReturn | closeAgain => exact hr
  | register context registration endpoint hchecks hclosed hreg hheld =>
      exact hr.register hclosed hreg hheld registration.inst
  | session sid s s' hs hmove =>
      exact hr.put hs (hmove.inv (hr.sessions sid s hs)) hmove.follows hmove.seenAs
  | postFailed sid s err hs hphase =>
      refine hr.leavesPosting hs hphase rfl rfl rfl ?_
      have hrec := ((hr.sessions sid s hs).apart (by rw [hphase]; rfl)).recorded
      simp only [Session.Recorded, hphase] at hrec
      exact hrec.imp_right .inl
  | postHeld sid s hs hphase hclosed => exact hr.postHeld hs hphase hclosed
  | postCleaned sid s hs hphase hclosed =>
      refine hr.leavesPosting hs hphase rfl rfl rfl ?_
      have hrec := ((hr.sessions sid s hs).apart (by rw [hphase]; rfl)).recorded
      simpa only [Session.Recorded, hphase] using hrec
  | registerReturn sid s held hs hphase => exact hr.registerReturn hs hphase
  | remove sid s hs hclose => exact hr.remove hs hclose
  | close found hclosed hperm => exact hr.closeCalled hperm
  | closeWaited found hclose hwg =>
      have hcalled := hr.called
      rw [hclose] at hcalled
      refine hr.goesOn hcalled (by rw [hclose]; rfl) (by rw [hclose]; exact fun _ h => h) ?_
        fun _ => hwg
      rw [hclose]
      exact fun _ hnot hold => absurd hold hnot
  | closeEnter sid todo found s hclose hs => exact hr.closeEnter hs hclose
  | closeLeave sid todo found s hclose hs hdone =>
      have hcalled := hr.called
      have hwaited := hr.waited
      rw [hclose] at hcalled hwaited
      refine hr.goesOn hcalled (by rw [hclose]; rfl) ?_ ?_ hwaited
      · rw [hclose]
        exact fun _ h => List.mem_cons_of_mem _ h
      · rw [hclose]
        intro i hnot hold
        rcases List.mem_cons.mp hold with rfl | htodo
        · exact ⟨s, hs, hdone⟩
        · exact absurd htodo hnot
  | closeReturn found hclose =>
      have hcalled := hr.called
      have hwaited := hr.waited
      rw [hclose] at hcalled hwaited
      refine hr.goesOn hcalled (by rw [hclose]; rfl) (fun _ h => by cases h) ?_ hwaited
      rw [hclose]
      exact fun _ hnot hold => absurd hold hnot

/-! ## What stays of a session -/

namespace Registrar

theorem Inv.resolved_of_done (hr : r.Inv) (h : r.Has sid s) (hdone : s.close = .done) :
    s.Resolved :=
  ((hr.sessions sid s h).held_of_close (by simp [hdone])).ended (by rw [hdone]; rfl)

/-- Once the first `Registrar.Close` has returned, what was registered is
taken back. -/
theorem Inv.resolved_of_returned (hr : r.Inv) {found : List Nat}
    (hclose : r.close = .returned found) (h : r.Has sid s) (hposted : .posted true ∈ s.log) :
    s.Resolved := by
  have hinv := hr.sessions sid s h
  have hwaited : r.registerWG = 0 := hr.waited (by rw [hclose]; rfl)
  have hreturned : s.register.isActive ≠ true :=
    List.countP_eq_zero.mp (hr.waits.trans hwaited) s (List.mem_of_getElem? h)
  cases hheld : s.register.isHeld with
  | false =>
      -- its own call of `Register` has returned without a lease
      obtain ⟨held, hphase⟩ : ∃ held, s.register = .returned held := by
        cases hs : s.register with
        | returned held => exact ⟨held, rfl⟩
        | posting | sending | posted | cleaning | deleting | terminating | finishing =>
            exact absurd (by rw [hs]; rfl) hreturned
      have hrec := (hinv.apart hheld).recorded
      simp only [Session.Recorded, hphase] at hrec
      rcases hrec with hlog | hlog | ⟨ok, hlog⟩
      · simp [hlog] at hposted
      · simp [hlog] at hposted
      · exact .inl (by simp [hlog])
  | true =>
      by_cases hdone : s.close = .done
      · exact hr.resolved_of_done h hdone
      · have hclosed : r.closed = true := by
          rw [← hr.called, hclose]
          rfl
        have hfound := hr.found hclosed sid ((hr.isHeld_iff h).mpr ⟨hheld, hdone⟩)
        obtain ⟨t, ht, htdone⟩ := hr.finished sid hfound (by rw [hclose]; exact List.not_mem_nil)
        rw [ht.unique h] at htdone
        exact absurd htdone hdone

/-- The sessions of the first are those of the second, each further on. -/
def Kept (r r' : Registrar) : Prop := ∀ sid s, r.Has sid s → ∃ s', r'.Has sid s' ∧ s.Follows s'

theorem kept_refl (r : Registrar) : r.Kept r := fun _ s hs => ⟨s, hs, .refl s⟩

theorem Kept.trans {r'' : Registrar} (h : r.Kept r') (h' : r'.Kept r'') : r.Kept r'' := by
  intro sid s hs
  obtain ⟨s', hs', hfollows⟩ := h sid s hs
  obtain ⟨s'', hs'', hfollows'⟩ := h' sid s' hs'
  exact ⟨s'', hs'', hfollows.trans hfollows'⟩

theorem kept_put (h : r.Has sid s) (hfollows : s.Follows s') : r.Kept (r.put sid s') := by
  intro i t ht
  rcases eq_or_ne sid i with rfl | hne
  · obtain rfl := ht.unique h
    exact ⟨s', has_put_self h s', hfollows⟩
  · exact ⟨t, (has_put_of_ne hne).mpr ht, .refl t⟩

end Registrar

section Runs

variable [UnicodeCase]

variable {e : RegistrarEvent} {trace : List RegistrarEvent}

open Registrar in
theorem RegistrarMoves.kept (h : RegistrarMoves config r e r') : r.Kept r' := by
  cases h with
  | registerInvalid | registerClosed | registerBusy | leaseCloseReturn | closeAgain | close
  | closeWaited | closeLeave | closeReturn => exact fun _ s hs => ⟨s, hs, .refl s⟩
  | register =>
      intro sid s hs
      obtain ⟨hlt, -⟩ := List.getElem?_eq_some_iff.mp hs
      exact ⟨s, (List.getElem?_append_left hlt).trans hs, .refl s⟩
  | session sid s s' hs hmove => exact kept_put hs hmove.follows
  | postFailed sid s err hs hphase => exact kept_put hs (Session.follows_leavesPosting hphase rfl)
  | postHeld sid s hs hphase => exact kept_put hs (Session.follows_postHeld hphase)
  | postCleaned sid s hs hphase => exact kept_put hs (Session.follows_leavesPosting hphase rfl)
  | registerReturn sid s held hs hphase => exact kept_put hs (Session.follows_registerReturn hphase)
  | remove sid s hs => exact kept_put hs s.follows_remove
  | closeEnter sid todo found s hclose hs => exact kept_put hs s.follows_enter

theorem kept_of_run (h : RegistrarRun config r trace r') : r.Kept r' :=
  h.keeps (r.Kept ·) (fun _ _ _ hkept hmove => hkept.trans hmove.kept) (Registrar.kept_refl r)

/-- A closed registrar stays closed and makes no session. -/
theorem RegistrarMoves.closed {e : RegistrarEvent} (h : RegistrarMoves config r e r')
    (hclosed : r.closed = true) :
    r'.closed = true ∧ r'.sessions.length = r.sessions.length := by
  cases h with
  | registerInvalid | registerClosed | registerBusy | leaseCloseReturn | closeAgain
  | closeWaited | closeLeave | closeReturn => exact ⟨hclosed, rfl⟩
  | register _ _ _ _ hopen | close _ hopen =>
      rw [hclosed] at hopen
      cases hopen
  | session | postFailed | postHeld | postCleaned | registerReturn | remove | closeEnter =>
      exact ⟨hclosed, List.length_set⟩

theorem closed_of_run (h : RegistrarRun config r trace r') (hclosed : r.closed = true) :
    r'.sessions.length = r.sessions.length := by
  have hboth := h.keeps (fun q => q.closed = true ∧ q.sessions.length = r.sessions.length)
    (fun _ _ _ hq hmove => ⟨(hmove.closed hq.1).1, (hmove.closed hq.1).2.trans hq.2⟩)
    ⟨hclosed, rfl⟩
  exact hboth.2

/-! ## Returned calls -/

/-- What the calls that have returned promise. -/
structure Returned (trace : List RegistrarEvent) (r : Registrar) : Prop where
  inv : r.Inv
  leaseClose : ∀ sid, .leaseCloseReturned sid ∈ trace → ∃ s, r.Has sid s ∧ s.Resolved
  close : .registrarCloseReturned ∈ trace → ∃ found, r.close = .returned found

theorem RegistrarMoves.close_returned (h : RegistrarMoves config r e r') {found : List Nat}
    (hclose : r.close = .returned found) (hr : r.Inv) : r'.close = .returned found := by
  cases h with
  | registerInvalid | registerClosed | registerBusy | register | session | postFailed | postHeld
  | postCleaned | registerReturn | leaseCloseReturn | remove | closeAgain => exact hclose
  | close _ hopen =>
      have hcalled := hr.called
      rw [hclose, hopen] at hcalled
      cases hcalled
  | closeWaited _ hphase | closeEnter _ _ _ _ hphase | closeLeave _ _ _ _ hphase
  | closeReturn _ hphase =>
      rw [hclose] at hphase
      cases hphase

theorem RegistrarMoves.returned (h : RegistrarMoves config r e r') (hr : Returned trace r) :
    Returned (trace ++ [e]) r' where
  inv := h.inv hr.inv
  leaseClose sid hmem := by
    rcases List.mem_append.mp hmem with hold | hnew
    · obtain ⟨s, hs, hresolved⟩ := hr.leaseClose sid hold
      obtain ⟨s', hs', hfollows⟩ := h.kept sid s hs
      exact ⟨s', hs', hfollows.resolved hresolved⟩
    · obtain rfl := List.mem_singleton.mp hnew
      cases h with
      | leaseCloseReturn sid s hs hdone =>
          exact ⟨s, hs, hr.inv.resolved_of_done hs ((hr.inv.sessions sid s hs).close_eq_done hdone)⟩
  close hmem := by
    rcases List.mem_append.mp hmem with hold | hnew
    · obtain ⟨found, hclose⟩ := hr.close hold
      exact ⟨found, h.close_returned hclose hr.inv⟩
    · obtain rfl := List.mem_singleton.mp hnew
      cases h with
      | closeReturn found => exact ⟨found, rfl⟩

theorem returned_of_run (h : RegistrarRun config .new trace r) : Returned trace r :=
  h.holds Returned (fun _ _ _ _ hr hmove => hmove.returned hr)
    ⟨Registrar.inv_new, nofun, nofun⟩

/-- **The life of a registration.** At most one session is posted or held,
and a POST that is sent by a closed registrar is that of a call which had
passed its check; what a session sends is in order; calls that close have
taken back what was registered, or have given up waiting for the loop; and
a lease keeps its outcome. -/
theorem registrar_lifecycle {config : RegistrarConfig} {trace : List RegistrarEvent} {r : Registrar}
    (h : RegistrarRun config .new trace r) :
    (r.sessions.countP (·.register.isPosting) + r.held.length ≤ 1
      ∧ (r.closed = true → ∀ trace' r', RegistrarRun config r trace' r' →
          ∀ sid s', r'.Has sid s' → .post ∈ s'.log →
            ∃ s, r.Has sid s ∧ (.post ∈ s.log ∨ s.register = .posting)))
    ∧ (∀ sid s, r.Has sid s → Lawful Allowed s.log)
    ∧ (∀ sid, .leaseCloseReturned sid ∈ trace →
        ∃ s, r.Has sid s ∧ (.delete ∈ s.log ∨ .gaveUp ∈ s.log))
    ∧ (.registrarCloseReturned ∈ trace →
        ∀ sid s, r.Has sid s → .posted true ∈ s.log → .delete ∈ s.log ∨ .gaveUp ∈ s.log)
    ∧ ∀ sid s, r.Has sid s →
        (s.close = .done → s.terminal.isSome = true)
        ∧ (.beaten false ∈ s.log → s.loop = .stopped → s.terminal.isSome = true)
        ∧ ∀ err, s.terminal = some err → ∀ trace' r', RegistrarRun config r trace' r' →
            ∃ s', r'.Has sid s' ∧ s'.terminal = some err := by
  obtain ⟨hr, hlease, hclose⟩ := returned_of_run h
  refine ⟨⟨?_, ?_⟩, fun sid s hs => (hr.sessions sid s hs).lawful, hlease, ?_, ?_⟩
  · rw [hr.posting]
    cases hreg : r.registering with
    | false => simpa using hr.one
    | true => simp [hr.alone hreg]
  · intro hclosed trace' r' hrun sid s' hs' hpost
    obtain ⟨hlt, -⟩ := List.getElem?_eq_some_iff.mp hs'
    rw [closed_of_run hrun hclosed] at hlt
    have hs : r.Has sid r.sessions[sid] := List.getElem?_eq_getElem hlt
    obtain ⟨t, ht, hfollows⟩ := kept_of_run hrun sid _ hs
    obtain rfl := ht.unique hs'
    exact ⟨_, hs, hfollows.post hpost⟩
  · intro hmem sid s hs hposted
    obtain ⟨found, hreturned⟩ := hclose hmem
    exact hr.resolved_of_returned hreturned hs hposted
  · intro sid s hs
    have hinv := hr.sessions sid s hs
    refine ⟨fun hdone => ?_, fun hfailed hstopped => ?_, fun err herr trace' r' hrun => ?_⟩
    · exact (hinv.held_of_close (by simp [hdone])).terminated (by rw [hdone]; rfl)
    · exact (hinv.held_of_loop (by simp [hstopped])).failed hfailed (by rw [hstopped]; rfl)
    · obtain ⟨s', hs', hfollows⟩ := kept_of_run hrun sid s hs
      exact ⟨s', hs', hfollows.terminal err herr⟩

end Runs

/-! ## A registrar that is closed while it registers -/

namespace Weather

open Registered

/-- Letters stay as they are. -/
local instance plainCase : UnicodeCase := ⟨fun r => r⟩

/-- The heartbeat is answered with the interval of the configuration. -/
def beaten : Reply := .response 200 (some (utf8 "\x7b\"clientBeatInterval\":5000\x7d"))

/-- The session while `Register` is here and has done this. -/
def opening (phase : RegisterPhase) (log : List Act) : Session :=
  ⟨Listed.first, phase, .absent, false, .fresh, false, .fresh, none, log⟩

/-- The session when `Register` has returned its lease. -/
def leasing (loop : LoopPhase) (stop : Bool) (close : ClosePhase) (leaseClose : LeaseClosePhase)
    (terminal : Option OutcomeError) (log : List Act) : Session :=
  ⟨Listed.first, .returned true, loop, stop, close, true, leaseClose, terminal, log⟩

theorem run_register : RegistrarRun Registered.config .new [.quiet]
    ⟨false, true, 1, [], .notCalled, [opening .posting []]⟩ :=
  .single (.register _ (some none) _ _ checks_registrationAt rfl rfl rfl)

/-- The one session takes a step of its own. -/
theorem run_session {trace : List RegistrarEvent} {closed registering : Bool} {registerWG : Nat}
    {held : List Nat} {close : RegistrarClosePhase} {s s' t : Session}
    (h : RegistrarRun Registered.config .new trace
      ⟨closed, registering, registerWG, held, close, [s]⟩)
    (hmove : SessionMoves Registered.config s s') (heq : s' = t) :
    RegistrarRun Registered.config .new (trace ++ [.quiet])
      ⟨closed, registering, registerWG, held, close, [t]⟩ :=
  heq ▸ h.snoc (.session _ 0 _ _ rfl hmove)

/-- `Registrar.Close` finds a registration in flight, which is then taken
back. -/
theorem run_closed : ∃ trace, .registrarCloseReturned ∈ trace
    ∧ RegistrarRun Registered.config .new trace ⟨true, false, 0, [], .returned [],
      [{ opening (.returned false) [.post, .posted true, .delete, .deleted true] with
        terminal := some errClosed }]⟩ := by
  have hsent := run_session (t := opening .sending [.post]) run_register (.sendPost _ rfl)
    (by decide +kernel)
  have hclose := hsent.snoc (.close _ [] rfl (.refl _))
  have hposted := run_session (t := opening (.posted none) [.post, .posted true]) hclose
    (.postEnded _ accepted rfl) (by decide +kernel)
  have hcleaning := hposted.snoc (.postCleaned _ 0 _ rfl rfl rfl)
  have hdelete := run_session (t := opening .deleting [.post, .posted true, .delete]) hcleaning
    (.sendCleanup _ rfl) (by decide +kernel)
  have hdeleted := run_session
    (t := opening .terminating [.post, .posted true, .delete, .deleted true]) hdelete
    (.cleanupEnded _ accepted rfl) (by decide +kernel)
  have hended := hdeleted.snoc (.session _ 0 _ _ rfl (.cleanupTerminate _ rfl))
  have hreturned := hended.snoc (.registerReturn _ 0 _ false rfl rfl)
  have hwaited := hreturned.snoc (.closeWaited _ [] rfl rfl)
  have hclosed := hwaited.snoc (.closeReturn _ [] rfl)
  exact ⟨_, by simp, hclosed⟩

/-- A lease is held, kept alive by a heartbeat and closed. -/
theorem run_leased : ∃ trace, .leaseCloseReturned 0 ∈ trace
    ∧ RegistrarRun Registered.config .new trace ⟨false, false, 0, [], .notCalled,
      [leasing .stopped true .done .done (some errClosed) [.post, .posted true, .loopStarted, .beat,
        .beaten true, .loopStopped, .delete, .deleted true]]⟩ := by
  have hsent := run_session (t := opening .sending [.post]) run_register (.sendPost _ rfl)
    (by decide +kernel)
  have hposted := run_session (t := opening (.posted none) [.post, .posted true]) hsent
    (.postEnded _ accepted rfl) (by decide +kernel)
  have hheld := hposted.snoc (.postHeld _ 0 _ rfl rfl rfl)
  have hleased := hheld.snoc (.registerReturn _ 0 _ true rfl rfl)
  have hbeat := run_session (t := leasing .beating false .fresh .fresh none
    [.post, .posted true, .loopStarted, .beat]) hleased (.tick _ rfl) (by decide +kernel)
  have hbeaten := run_session (t := leasing .idle false .fresh .fresh none
    [.post, .posted true, .loopStarted, .beat, .beaten true]) hbeat (.beatEnded _ beaten rfl)
    (by decide +kernel)
  have hcalled := run_session (t := leasing .idle false .fresh .entering none
    [.post, .posted true, .loopStarted, .beat, .beaten true]) hbeaten (.leaseClose _ rfl rfl) rfl
  have hentered := run_session (t := leasing .idle false .started .waiting none
    [.post, .posted true, .loopStarted, .beat, .beaten true]) hcalled (.leaseEnter _ rfl) rfl
  have hstopping := run_session (t := leasing .idle true .waiting .waiting none
    [.post, .posted true, .loopStarted, .beat, .beaten true]) hentered (.closeStop _ rfl) rfl
  have hstop := run_session (t := leasing .returning true .waiting .waiting none
    [.post, .posted true, .loopStarted, .beat, .beaten true]) hstopping (.loopStop _ rfl rfl) rfl
  have hstopped := run_session (t := leasing .stopped true .waiting .waiting none
    [.post, .posted true, .loopStarted, .beat, .beaten true, .loopStopped]) hstop
    (.loopReturn _ rfl) rfl
  have hdelete := run_session (t := leasing .stopped true .deleting .waiting none
    [.post, .posted true, .loopStarted, .beat, .beaten true, .loopStopped, .delete]) hstopped
    (.closeDelete _ rfl rfl) (by decide +kernel)
  have hdeleted := run_session (t := leasing .stopped true (.ending none) .waiting none
    [.post, .posted true, .loopStarted, .beat, .beaten true, .loopStopped, .delete, .deleted true])
    hdelete (.closeEnded _ accepted rfl) (by decide +kernel)
  have hended := run_session (t := leasing .stopped true .removing .waiting (some errClosed)
    [.post, .posted true, .loopStarted, .beat, .beaten true, .loopStopped, .delete, .deleted true])
    hdeleted (.closeTerminate _ none rfl) (by decide +kernel)
  have hremoved := hended.snoc (.remove _ 0 _ rfl rfl)
  have hleft := hremoved.snoc (.session _ 0 _ _ rfl (.leaseLeave _ rfl rfl))
  have hreturned := hleft.snoc (.leaseCloseReturn _ 0 _ rfl rfl)
  exact ⟨_, by simp, hreturned⟩

theorem lifecycle_of_closed :
    (∃ trace r s, RegistrarRun Registered.config .new trace r ∧ .registrarCloseReturned ∈ trace
      ∧ r.Has 0 s ∧ .posted true ∈ s.log ∧ (.delete ∈ s.log ∨ .gaveUp ∈ s.log))
    ∧ ∃ trace r s, RegistrarRun Registered.config .new trace r ∧ .leaseCloseReturned 0 ∈ trace
      ∧ r.Has 0 s ∧ .beaten true ∈ s.log ∧ .delete ∈ s.log ∧ s.terminal.isSome = true := by
  constructor
  · obtain ⟨trace, hreturned, hrun⟩ := run_closed
    have hposted : Act.posted true ∈ [.post, .posted true, .delete, .deleted true] := by simp
    exact ⟨trace, _, _, hrun, hreturned, rfl, hposted,
      (registrar_lifecycle hrun).2.2.2.1 hreturned 0 _ rfl hposted⟩
  · obtain ⟨trace, hreturned, hrun⟩ := run_leased
    obtain ⟨-, -, hlease, -, hterminal⟩ := registrar_lifecycle hrun
    obtain ⟨s, hs, hdeleted⟩ := hlease 0 hreturned
    refine ⟨trace, _, s, hrun, hreturned, hs, ?_⟩
    have hdone := (hterminal 0 s hs).1
    cases hs
    exact ⟨by simp [leasing], hdeleted.resolve_right (by simp [leasing]), hdone rfl⟩

end Weather

end Registry.Nacos

end Nekiro
