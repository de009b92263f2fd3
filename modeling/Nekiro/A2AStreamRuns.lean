import Nekiro.A2AStream

/-!
# Runs of the streaming client

Which upstreams `Client.SendStreaming` hands on without an error.
`Orderly` says it of whole lists of events: payloads within the limit, one
identity, and for each artifact a base chunk, then appended ones, the last
one last. The checks of the loop body say the same event by event
(`Tracks.admits_iff`).

A run goes to its end, stops with the upstream or breaks at an item
(`Goes`, `streamItems_goes`); `sendStreaming_iff` reads off what the
consumer is handed in each case.
-/

namespace Nekiro

namespace A2A

open Guard Transport

/-! ## Whole streams -/

/-- The updates of one artifact. -/
def updates (id : String) (events : List Event) : List Event :=
  events.filter fun e => e.kind = .artifactUpdate ∧ e.artifactID = id

/-- A base chunk, then appended ones; nothing follows the last chunk. -/
def ChunkOrder (chunks : List Event) : Prop :=
  ∀ older e newer, chunks = older ++ e :: newer →
    (e.artifactAppend = true ↔ older ≠ []) ∧ (e.artifactLast = true → newer = [])

/-- What holds of the events of a stream as far as it has come. -/
structure Orderly (eventLimit : Int) (events : List Event) : Prop where
  payload : ∀ e ∈ events, e.payload ≠ [] ∧ (e.payload.length : Int) ≤ eventLimit
  identity : ∀ e ∈ events, ∀ e' ∈ events, e.taskID = e'.taskID ∧ e.contextID = e'.contextID
  artifacts : ∀ id, ChunkOrder (updates id events)

/-- Every artifact has had its last chunk. -/
def Complete (events : List Event) : Prop :=
  ∀ id, updates id events ≠ [] → ∃ e ∈ updates id events, e.artifactLast = true

/-- A stream that ends as it should: with its only terminal event. -/
structure Acceptable (eventLimit : Int) (events : List Event) : Prop where
  orderly : Orderly eventLimit events
  complete : Complete events
  terminal : ∃ earlier last, events = earlier ++ [last] ∧ last.Terminal
    ∧ ∀ e ∈ earlier, ¬e.Terminal

/-- A stream that is not at its end. -/
structure Running (eventLimit : Int) (events : List Event) : Prop where
  orderly : Orderly eventLimit events
  ongoing : ∀ e ∈ events, ¬e.Terminal

theorem chunkOrder_nil : ChunkOrder [] := by
  intro older e newer h
  simp at h

variable {e : Event} {events : List Event}

theorem chunkOrder_concat {chunks : List Event} :
    ChunkOrder (chunks ++ [e]) ↔
      ChunkOrder chunks ∧ (e.artifactAppend = true ↔ chunks ≠ [])
        ∧ ∀ e' ∈ chunks, e'.artifactLast = false := by
  constructor
  · intro h
    refine ⟨fun older e' newer hsplit => ?_, (h chunks e [] rfl).1, fun e' he' => ?_⟩
    · have hlonger := h older e' (newer ++ [e]) (by rw [hsplit]; simp)
      refine ⟨hlonger.1, fun hlast => ?_⟩
      exact absurd (hlonger.2 hlast) (by simp)
    · obtain ⟨older, newer, rfl⟩ := List.append_of_mem he'
      have hmiddle := h older e' (newer ++ [e]) (by simp)
      cases hlast : e'.artifactLast with
      | false => rfl
      | true => exact absurd (hmiddle.2 hlast) (by simp)
  · rintro ⟨hchunks, happend, hlast⟩ older e' newer hsplit
    rcases List.eq_nil_or_concat' newer with rfl | ⟨newer, e'', rfl⟩
    · obtain ⟨rfl, rfl⟩ := List.append_singleton_inj.mp hsplit
      exact ⟨happend, fun _ => rfl⟩
    · rw [← List.cons_append, ← List.append_assoc, List.append_singleton_inj] at hsplit
      obtain ⟨rfl, rfl⟩ := hsplit
      refine ⟨(hchunks older e' newer rfl).1, fun h => ?_⟩
      rw [hlast e' (by simp)] at h
      cases h

theorem updates_concat_of_update (hkind : e.kind = .artifactUpdate) :
    updates e.artifactID (events ++ [e]) = updates e.artifactID events ++ [e] := by
  unfold updates
  rw [List.filter_append]
  simp [hkind]

theorem updates_concat_of_not {id : String} (h : ¬(e.kind = .artifactUpdate ∧ e.artifactID = id)) :
    updates id (events ++ [e]) = updates id events := by
  unfold updates
  rw [List.filter_append]
  simp [h]

/-- One more event. -/
theorem orderly_concat {eventLimit : Int} :
    Orderly eventLimit (events ++ [e]) ↔
      Orderly eventLimit events ∧ (e.payload ≠ [] ∧ (e.payload.length : Int) ≤ eventLimit)
        ∧ (∀ e' ∈ events, e'.taskID = e.taskID ∧ e'.contextID = e.contextID)
        ∧ (e.kind = .artifactUpdate →
          (e.artifactAppend = true ↔ updates e.artifactID events ≠ [])
            ∧ ∀ e' ∈ updates e.artifactID events, e'.artifactLast = false) := by
  constructor
  · rintro ⟨hpayload, hidentity, hartifacts⟩
    have hmem : ∀ e' ∈ events, e' ∈ events ++ [e] := fun e' he' => List.mem_append_left _ he'
    have hself : e ∈ events ++ [e] := by simp
    refine ⟨⟨fun e' he' => hpayload e' (hmem e' he'),
      fun e' he' e'' he'' => hidentity e' (hmem e' he') e'' (hmem e'' he''), fun id => ?_⟩,
      hpayload e hself, fun e' he' => hidentity e' (hmem e' he') e hself, fun hkind => ?_⟩
    · by_cases hupdate : e.kind = .artifactUpdate ∧ e.artifactID = id
      · obtain ⟨hkind, rfl⟩ := hupdate
        have hchunks := hartifacts e.artifactID
        rw [updates_concat_of_update hkind] at hchunks
        exact (chunkOrder_concat.mp hchunks).1
      · rw [← updates_concat_of_not hupdate]
        exact hartifacts id
    · have hchunks := hartifacts e.artifactID
      rw [updates_concat_of_update hkind] at hchunks
      exact (chunkOrder_concat.mp hchunks).2
  · rintro ⟨⟨hpayloads, hidentities, hartifacts⟩, hpayload, hidentity, hartifact⟩
    have hall : ∀ e' ∈ events ++ [e], e'.taskID = e.taskID ∧ e'.contextID = e.contextID := by
      intro e' he'
      rcases List.mem_append.mp he' with he' | he'
      · exact hidentity e' he'
      · rw [List.mem_singleton.mp he']
        exact ⟨rfl, rfl⟩
    refine ⟨?_, fun e' he' e'' he'' => ⟨(hall e' he').1.trans (hall e'' he'').1.symm,
      (hall e' he').2.trans (hall e'' he'').2.symm⟩, fun id => ?_⟩
    · exact List.forall_mem_append.mpr ⟨hpayloads, List.forall_mem_singleton.mpr hpayload⟩
    · by_cases hupdate : e.kind = .artifactUpdate ∧ e.artifactID = id
      · obtain ⟨hkind, rfl⟩ := hupdate
        rw [updates_concat_of_update hkind]
        exact chunkOrder_concat.mpr ⟨hartifacts _, hartifact hkind⟩
      · rw [updates_concat_of_not hupdate]
        exact hartifacts id

theorem orderly_nil (eventLimit : Int) : Orderly eventLimit [] :=
  ⟨by simp, by simp, fun _ => chunkOrder_nil⟩

/-- What comes first in an orderly stream is orderly. -/
theorem Orderly.of_append {eventLimit : Int} {rest : List Event}
    (h : Orderly eventLimit (events ++ rest)) : Orderly eventLimit events := by
  induction rest using List.reverseRecOn with
  | nil => rwa [List.append_nil] at h
  | append_singleton rest e ih =>
      rw [← List.append_assoc, orderly_concat] at h
      exact ih h.1

/-! ## The loop on whole streams -/

/-- The variables of the loop after the events, none of them terminal. -/
structure Tracks (events : List Event) (st : State) : Prop where
  live : st.pendingTerminal = none
  seen : ∀ id, id ∈ st.artifactSeen ↔ updates id events ≠ []
  last : ∀ id, id ∈ st.artifactLast ↔ ∃ e ∈ updates id events, e.artifactLast = true
  fresh : st.taskID = "" ↔ events = []
  identity : ∀ e ∈ events, e.taskID = st.taskID ∧ e.contextID = st.contextID

theorem tracks_initial : Tracks [] .initial :=
  ⟨rfl, by simp [State.initial, updates], by simp [State.initial, updates], by simp [State.initial],
    by simp⟩

section Tracking

variable {eventLimit : Int} {events : List Event} {st : State} {e : Event}

theorem Tracks.seen_withArtifact (h : Tracks events st) (id : String) :
    id ∈ (st.withArtifact e).artifactSeen ↔ updates id (events ++ [e]) ≠ [] := by
  unfold State.withArtifact
  by_cases hkind : e.kind = .artifactUpdate
  · rw [if_pos hkind, List.mem_cons, h.seen]
    by_cases hid : e.artifactID = id
    · subst hid
      rw [updates_concat_of_update hkind]
      simp
    · rw [updates_concat_of_not fun hupdate => hid hupdate.2]
      exact or_iff_right fun h => hid h.symm
  · rw [if_neg hkind, updates_concat_of_not fun hupdate => hkind hupdate.1]
    exact h.seen id

theorem Tracks.last_withArtifact (h : Tracks events st) (id : String) :
    id ∈ (st.withArtifact e).artifactLast ↔
      ∃ e' ∈ updates id (events ++ [e]), e'.artifactLast = true := by
  unfold State.withArtifact
  by_cases hkind : e.kind = .artifactUpdate
  · rw [if_pos hkind]
    by_cases hid : e.artifactID = id
    · subst hid
      rw [updates_concat_of_update hkind]
      cases hlast : e.artifactLast with
      | true => simp [hlast]
      | false =>
          have hiff := h.last e.artifactID
          simp only [Bool.false_eq_true, if_false, hiff]
          simp [hlast]
    · rw [updates_concat_of_not fun hupdate => hid hupdate.2, ← h.last]
      split_ifs
      · rw [List.mem_cons]
        exact or_iff_right fun h => hid h.symm
      · exact Iff.rfl
  · rw [if_neg hkind, updates_concat_of_not fun hupdate => hkind hupdate.1]
    exact h.last id

theorem Tracks.closed_iff (h : Tracks events st) : st.Closed ↔ Complete events := by
  unfold State.Closed Complete
  simp only [h.seen, h.last]

theorem Tracks.closed_withArtifact_iff (h : Tracks events st) :
    (st.withArtifact e).Closed ↔ Complete (events ++ [e]) := by
  unfold State.Closed Complete
  simp only [h.seen_withArtifact, h.last_withArtifact]

theorem Tracks.next (h : Tracks events st) (hmapped : e.Mapped) (hterminal : ¬e.Terminal)
    (hadmits : st.Admits eventLimit e) : Tracks (events ++ [e]) (st.next e) := by
  refine ⟨?_, h.seen_withArtifact, h.last_withArtifact, ?_, ?_⟩
  · unfold State.next
    rw [if_neg hterminal]
    exact h.live
  · unfold State.next
    dsimp only
    split_ifs with htask
    · exact iff_of_false hmapped.taskID (by simp)
    · exact iff_of_false htask (by simp)
  · unfold State.next
    dsimp only
    by_cases htask : st.taskID = ""
    · rw [h.fresh.mp htask, if_pos htask, if_pos htask]
      simp
    · rw [if_neg htask, if_neg htask]
      exact List.forall_mem_append.mpr
        ⟨h.identity, List.forall_mem_singleton.mpr (hadmits.identity htask)⟩

/-- The checks of the loop body are those of the language. -/
theorem Tracks.admits_iff (h : Tracks events st) (hmapped : e.Mapped)
    (hevents : Orderly eventLimit events) :
    st.Admits eventLimit e ↔
      Orderly eventLimit (events ++ [e]) ∧ (e.Terminal → Complete (events ++ [e])) := by
  have hidentity : (st.taskID ≠ "" → e.taskID = st.taskID ∧ e.contextID = st.contextID) ↔
      ∀ e' ∈ events, e'.taskID = e.taskID ∧ e'.contextID = e.contextID := by
    constructor
    · intro hsame e' he'
      have hne : st.taskID ≠ "" := fun htask => by
        rw [h.fresh.mp htask] at he'
        exact absurd he' List.not_mem_nil
      obtain ⟨htask, hcontext⟩ := hsame hne
      exact ⟨(h.identity e' he').1.trans htask.symm, (h.identity e' he').2.trans hcontext.symm⟩
    · intro hsame hne
      obtain ⟨e', he'⟩ := List.exists_mem_of_ne_nil events fun hnil => hne (h.fresh.mpr hnil)
      exact ⟨(hsame e' he').1.symm.trans (h.identity e' he').1,
        (hsame e' he').2.symm.trans (h.identity e' he').2⟩
  have hartifact : e.artifactID ∉ st.artifactLast ↔
      ∀ e' ∈ updates e.artifactID events, e'.artifactLast = false := by
    rw [h.last]
    simp
  rw [State.admits_iff, orderly_concat, h.closed_withArtifact_iff, hidentity, h.seen, hartifact]
  constructor
  · rintro ⟨-, hchunk, hpayload, hsame, hclosed⟩
    exact ⟨⟨hevents, hpayload, hsame, fun hkind => (hchunk hkind).2⟩, hclosed⟩
  · rintro ⟨⟨-, hpayload, hsame, hchunk⟩, hclosed⟩
    exact ⟨h.live, fun hkind => ⟨hmapped.artifactID hkind, hchunk hkind⟩, hpayload, hsame, hclosed⟩

end Tracking

/-! ## Runs -/

section Runs

/-- An error of the loop carries a code; the interruption does not. -/
def IsCoded (err : GoError) : Prop := ∃ code cause, err = .coded code cause

variable {err : GoError} {x : Except GoError Item} {upstream : List (Except GoError Item)}
  {events : List Event} {eventLimit : Int} {e : Event} {st : State} {item : Item}

theorem IsCoded.ne_interrupted (h : IsCoded err) : err ≠ .sentinel .interrupted := by
  obtain ⟨code, cause, rfl⟩ := h
  exact nofun

theorem isCoded_of_coded? {err' : GoError} (h : coded? err = some err') : IsCoded err' := by
  induction err with
  | sentinel s => cases h
  | plain text => cases h
  | coded code cause => exact ⟨code, cause, (Option.some.inj h).symm⟩
  | wrapped cause ih => exact ih h
  | joined left right ihl ihr =>
      unfold coded? at h
      rcases Option.or_eq_some_iff.mp h with h | ⟨-, h⟩
      · exact ihl h
      · exact ihr h

theorem isCoded_classifyTransportError [Failures] (err : GoError) :
    IsCoded (classifyTransportError err) := by
  unfold classifyTransportError
  cases hcoded : coded? err with
  | some err' => exact isCoded_of_coded? hcoded
  | none =>
      dsimp only
      split_ifs
      · exact ⟨_, _, rfl⟩
      · exact ⟨_, _, rfl⟩
      · split <;> exact ⟨_, _, rfl⟩

/-- Every error of the computation carries a code. -/
def CodedErrors {α : Type} (x : Except GoError α) : Prop := ∀ err, x = .error err → IsCoded err

theorem codedErrors_ok {α : Type} (a : α) : CodedErrors (.ok a) := fun _ h => by cases h

theorem codedErrors_require {p : Prop} [Decidable p] (hcoded : IsCoded err) :
    CodedErrors (require p err) := by
  intro err' h
  unfold require at h
  split_ifs at h
  obtain rfl := Except.error.inj h
  exact hcoded

theorem CodedErrors.bind {α β : Type} {x : Except GoError α} {f : α → Except GoError β}
    (hx : CodedErrors x) (hf : ∀ a, CodedErrors (f a)) : CodedErrors (x >>= f) := by
  intro err h
  cases x with
  | error err' =>
      obtain rfl := Except.error.inj h
      exact hx _ rfl
  | ok a => exact hf a err h

theorem isCoded_protocolError (message : String) : IsCoded (protocolError message) := ⟨_, _, rfl⟩

theorem codedErrors_trackArtifact (st : State) (e : Event) : CodedErrors (st.trackArtifact e) := by
  unfold State.trackArtifact
  by_cases hkind : e.kind = .artifactUpdate
  · rw [if_pos hkind]
    exact (codedErrors_require (isCoded_protocolError _)).bind fun _ =>
      (codedErrors_require (isCoded_protocolError _)).bind fun _ =>
      (codedErrors_require (isCoded_protocolError _)).bind fun _ =>
      (codedErrors_require (isCoded_protocolError _)).bind fun _ => codedErrors_ok _
  · rw [if_neg hkind]
    exact codedErrors_ok st

theorem codedErrors_acceptItem (eventLimit : Int) (st : State) (item : Item) :
    CodedErrors (acceptItem eventLimit st item) := by
  unfold acceptItem
  cases mapA2AStreamEvent item.event with
  | error err =>
      intro err' h
      obtain rfl := Except.error.inj h
      exact ⟨_, _, rfl⟩
  | ok mapped =>
      refine (codedErrors_require (isCoded_protocolError _)).bind fun _ =>
        (codedErrors_trackArtifact st mapped).bind fun st =>
        (codedErrors_require (isCoded_protocolError _)).bind fun _ =>
        (codedErrors_require ⟨_, _, rfl⟩).bind fun _ => CodedErrors.bind ?_ fun st => ?_
      · unfold State.trackIdentity
        split_ifs
        · exact codedErrors_ok _
        · exact (codedErrors_require (isCoded_protocolError _)).bind fun _ => codedErrors_ok _
      · unfold State.handOn
        split_ifs
        · exact (codedErrors_require (isCoded_protocolError _)).bind fun _ => codedErrors_ok _
        · exact codedErrors_ok _

/-- The upstream has the events, item by item. -/
def Projects (upstream : List (Except GoError Item)) (events : List Event) : Prop :=
  upstream.map (fun x => x.bind project) = events.map .ok

theorem projects_cons_iff :
    Projects (x :: upstream) events ↔
      ∃ e rest, x.bind project = .ok e ∧ Projects upstream rest ∧ events = e :: rest := by
  unfold Projects
  rw [List.map_cons]
  constructor
  · intro h
    obtain ⟨e, rest, rfl, he, hrest⟩ := List.map_eq_cons_iff.mp h.symm
    exact ⟨e, rest, he.symm, hrest.symm, rfl⟩
  · rintro ⟨e, rest, he, hrest, rfl⟩
    rw [he, hrest, List.map_cons]

/-- How the rest of a stream goes on after `events`. -/
inductive Goes (eventLimit : Int) (events : List Event) (upstream : List (Except GoError Item)) :
    List (Except GoError Event) → Prop
  /-- To its end. -/
  | ends {rest : List Event} (hrest : Projects upstream rest)
      (h : Acceptable eventLimit (events ++ rest)) : Goes eventLimit events upstream (rest.map .ok)
  /-- The upstream has no more items, and none was terminal. -/
  | stops {rest : List Event} {err : GoError} (hrest : Projects upstream rest)
      (h : Running eventLimit (events ++ rest))
      (herr : err = .sentinel .interrupted ↔ Complete (events ++ rest)) :
      Goes eventLimit events upstream (rest.map .ok ++ [.error err])
  /-- An item does not pass. -/
  | breaks {n : Nat} {rest : List Event} {err : GoError} (hn : n < upstream.length)
      (hrest : Projects (upstream.take n) rest) (hongoing : ∀ e ∈ rest, ¬e.Terminal)
      (herr : err ≠ .sentinel .interrupted)
      (hnot : ∀ all, Projects upstream all →
        ¬Acceptable eventLimit (events ++ all) ∧ ¬Running eventLimit (events ++ all)) :
      Goes eventLimit events upstream (rest.map .ok ++ [.error err])

theorem goes_breaks_first (hcoded : IsCoded err) (hnot : ∀ all, Projects (x :: upstream) all →
      ¬Acceptable eventLimit (events ++ all) ∧ ¬Running eventLimit (events ++ all)) :
    Goes eventLimit events (x :: upstream) [.error err] :=
  @Goes.breaks eventLimit events (x :: upstream) 0 [] err (Nat.succ_pos _) rfl (by simp)
    hcoded.ne_interrupted hnot

/-- One more event in front. -/
theorem Goes.cons {eventLimit : Int} {events : List Event} {item : Item} {e : Event}
    {upstream : List (Except GoError Item)} {out : List (Except GoError Event)}
    (hproject : project item = .ok e) (hterminal : ¬e.Terminal)
    (h : Goes eventLimit (events ++ [e]) upstream out) :
    Goes eventLimit events (.ok item :: upstream) (.ok e :: out) := by
  have hcons : ∀ {rest upstream'}, Projects upstream' rest →
      Projects (.ok item :: upstream') (e :: rest) := fun hrest =>
    projects_cons_iff.mpr ⟨e, _, hproject, hrest, rfl⟩
  have happend : ∀ rest, events ++ e :: rest = events ++ [e] ++ rest := by simp
  cases h with
  | @ends rest hrest h => exact .ends (hcons hrest) (by rwa [happend])
  | @stops rest err hrest h herr =>
      exact .stops (hcons hrest) (by rwa [happend]) (by rwa [happend])
  | @breaks n rest err hn hrest hongoing herr hnot =>
      refine @Goes.breaks _ _ _ (n + 1) (e :: rest) err (Nat.succ_lt_succ hn) (hcons hrest)
        (List.forall_mem_cons.mpr ⟨hterminal, hongoing⟩) herr fun all hall => ?_
      obtain ⟨e', rest', he', hrest', rfl⟩ := projects_cons_iff.mp hall
      obtain rfl := Except.ok.inj (hproject.symm.trans he')
      rw [happend]
      exact hnot rest' hrest'

theorem Acceptable.not_terminal_middle {rest : List Event} {e' : Event}
    (h : Acceptable eventLimit (events ++ e :: e' :: rest)) : ¬e.Terminal := by
  obtain ⟨earlier, last, hsplit, -, hongoing⟩ := h.terminal
  refine hongoing e ?_
  have hdrop : (events ++ e :: e' :: rest).dropLast = earlier := by
    rw [hsplit, List.dropLast_concat]
  rw [← hdrop]
  simp

theorem exists_project_of_accept {result : State × Option Event}
    (h : acceptItem eventLimit st item = .ok result) : ∃ e, project item = .ok e := by
  unfold acceptItem at h
  unfold project
  cases hmap : mapA2AStreamEvent item.event with
  | error err =>
      rw [hmap] at h
      cases h
  | ok mapped => exact ⟨_, rfl⟩

/-- An item that does not pass cannot be part of a stream that does. -/
theorem not_acceptable_of_error (htracks : Tracks events st) (hevents : Orderly eventLimit events)
    (haccept : acceptItem eventLimit st item = .error err) :
    ∀ all, Projects (.ok item :: upstream) all →
      ¬Acceptable eventLimit (events ++ all) ∧ ¬Running eventLimit (events ++ all) := by
  intro all hall
  obtain ⟨e, rest, hproject, -, rfl⟩ := projects_cons_iff.mp hall
  have hrefused : ¬st.Admits eventLimit e := by
    intro hadmits
    have hok := (acceptItem_ok_iff hproject).mpr ⟨hadmits, rfl, rfl⟩
    rw [haccept] at hok
    cases hok
  rw [htracks.admits_iff (mapped_of_project hproject) hevents] at hrefused
  have happend : events ++ e :: rest = events ++ [e] ++ rest := by simp
  constructor
  · intro h
    refine hrefused ⟨Orderly.of_append (happend ▸ h.orderly), fun hterminal => ?_⟩
    cases rest with
    | nil => exact h.complete
    | cons e' rest => exact absurd hterminal h.not_terminal_middle
  · intro h
    refine hrefused ⟨Orderly.of_append (happend ▸ h.orderly), fun hterminal => ?_⟩
    exact absurd hterminal (h.ongoing e (by simp))

theorem finish_next_of_terminal (hadmits : st.Admits eventLimit e) (hterminal : e.Terminal) :
    finish none (st.next e) = .ok e := by
  have hclosed : (st.next e).Closed := hadmits.closed hterminal
  unfold finish
  rw [if_pos hclosed]
  unfold State.next
  rw [if_pos hterminal]

/-- The payloads are the bytes of the items. -/
theorem Projects.payloads (h : Projects upstream events) :
    ∃ items : List Item, upstream = items.map .ok
      ∧ events.map (·.payload) = items.map (·.result) := by
  induction upstream generalizing events with
  | nil =>
      rw [Projects, List.map_nil, eq_comm, List.map_eq_nil_iff] at h
      exact ⟨[], rfl, by rw [h]; rfl⟩
  | cons x upstream ih =>
      obtain ⟨e, rest, he, hrest, rfl⟩ := projects_cons_iff.mp h
      cases x with
      | error err => cases he
      | ok item =>
          obtain ⟨items, rfl, hpayloads⟩ := ih hrest
          obtain ⟨mapped, -, rfl⟩ := map_ok_iff.mp (he : project item = .ok e)
          exact ⟨item :: items, rfl, congrArg (item.result :: ·) hpayloads⟩

theorem Projects.unique {events' : List Event} (h : Projects upstream events)
    (h' : Projects upstream events') : events = events' :=
  List.map_injective_iff.mpr (fun _ _ => Except.ok.inj) (h.symm.trans h')

theorem Acceptable.not_running (h : Acceptable eventLimit events) : ¬Running eventLimit events := by
  obtain ⟨earlier, last, rfl, hterminal, -⟩ := h.terminal
  exact fun hrunning => hrunning.ongoing last (by simp) hterminal

variable [Failures]

/-- After a terminal event no item passes. -/
theorem streamItems_after_terminal {contextErr : Option ContextError}
    (hpending : st.pendingTerminal ≠ none) (x : Except GoError Item)
    (upstream : List (Except GoError Item)) :
    ∃ err, IsCoded err ∧ streamItems eventLimit contextErr st (x :: upstream) = [.error err] := by
  cases x with
  | error err => exact ⟨_, isCoded_classifyTransportError err, rfl⟩
  | ok item =>
      unfold streamItems
      cases haccept : acceptItem eventLimit st item with
      | error err => exact ⟨err, codedErrors_acceptItem eventLimit st item err haccept, rfl⟩
      | ok result =>
          obtain ⟨e, hproject⟩ := exists_project_of_accept haccept
          exact absurd ((acceptItem_ok_iff hproject).mp haccept).1.live hpending

/-- A terminal event is held back: it is handed on when it is the last. -/
theorem goes_terminal (hproject : project item = .ok e) (hadmits : st.Admits eventLimit e)
    (hterminal : e.Terminal) (hrunning : Running eventLimit events)
    (horderly : Orderly eventLimit (events ++ [e])) (hcomplete : Complete (events ++ [e]))
    (upstream : List (Except GoError Item)) :
    Goes eventLimit events (.ok item :: upstream)
      (streamItems eventLimit none (st.next e) upstream) := by
  have hprojects : ∀ all, Projects (.ok item :: upstream) all →
      ∃ rest, Projects upstream rest ∧ all = e :: rest := by
    intro all hall
    obtain ⟨e', rest, he', hrest, rfl⟩ := projects_cons_iff.mp hall
    obtain rfl := Except.ok.inj (hproject.symm.trans he')
    exact ⟨rest, hrest, rfl⟩
  cases upstream with
  | nil =>
      have hlast : streamItems eventLimit none (st.next e) [] = [finish none (st.next e)] := rfl
      rw [hlast, finish_next_of_terminal hadmits hterminal]
      exact @Goes.ends eventLimit events [.ok item] [e]
        (projects_cons_iff.mpr ⟨e, [], hproject, rfl, rfl⟩)
        ⟨horderly, hcomplete, events, e, rfl, hterminal, hrunning.ongoing⟩
  | cons x upstream =>
      have hpending : (st.next e).pendingTerminal ≠ none := by
        unfold State.next
        rw [if_pos hterminal]
        exact Option.some_ne_none e
      obtain ⟨err, hcoded, herr⟩ := streamItems_after_terminal hpending x upstream
      rw [herr]
      refine goes_breaks_first hcoded fun all hall => ?_
      obtain ⟨rest, hrest, rfl⟩ := hprojects all hall
      obtain ⟨e', rest, -, -, rfl⟩ := projects_cons_iff.mp hrest
      exact ⟨fun h => h.not_terminal_middle hterminal, fun h => h.ongoing e (by simp) hterminal⟩

/-- From a state that tracks the events so far, every upstream is read to
its end or to the first event that does not belong. -/
theorem streamItems_goes (htracks : Tracks events st) (hrunning : Running eventLimit events)
    (upstream : List (Except GoError Item)) :
    Goes eventLimit events upstream (streamItems eventLimit none st upstream) := by
  induction upstream generalizing events st with
  | nil =>
      have hfinish : streamItems eventLimit none st [] = [finish none st] := rfl
      rw [hfinish]
      unfold finish
      rw [htracks.live]
      by_cases hclosed : st.Closed
      · rw [if_pos hclosed]
        refine @Goes.stops eventLimit events [] [] _ rfl (by simpa using hrunning) ?_
        rw [List.append_nil]
        exact iff_of_true rfl (htracks.closed_iff.mp hclosed)
      · rw [if_neg hclosed]
        refine @Goes.stops eventLimit events [] [] _ rfl (by simpa using hrunning) ?_
        rw [List.append_nil]
        exact iff_of_false (isCoded_protocolError _).ne_interrupted
          fun h => hclosed (htracks.closed_iff.mpr h)
  | cons x upstream ih =>
      cases x with
      | error err =>
          have hfirst : streamItems eventLimit none st (.error err :: upstream) =
              [.error (classifyTransportError err)] := rfl
          rw [hfirst]
          refine goes_breaks_first (isCoded_classifyTransportError err) fun all hall => ?_
          obtain ⟨e, rest, he, -⟩ := projects_cons_iff.mp hall
          cases he
      | ok item =>
          unfold streamItems
          cases haccept : acceptItem eventLimit st item with
          | error err =>
              exact goes_breaks_first (codedErrors_acceptItem eventLimit st item err haccept)
                (not_acceptable_of_error htracks hrunning.orderly haccept)
          | ok result =>
              obtain ⟨st', out⟩ := result
              obtain ⟨e, hproject⟩ := exists_project_of_accept haccept
              obtain ⟨hadmits, rfl, rfl⟩ := (acceptItem_ok_iff hproject).mp haccept
              have hmapped := mapped_of_project hproject
              obtain ⟨horderly, hcomplete⟩ :=
                (htracks.admits_iff hmapped hrunning.orderly).mp hadmits
              by_cases hterminal : e.Terminal
              · rw [if_pos hterminal]
                exact goes_terminal hproject hadmits hterminal hrunning horderly
                  (hcomplete hterminal) upstream
              · rw [if_neg hterminal]
                refine Goes.cons hproject hterminal (ih (htracks.next hmapped hterminal hadmits)
                  ⟨horderly, ?_⟩)
                exact List.forall_mem_append.mpr
                  ⟨hrunning.ongoing, List.forall_mem_singleton.mpr hterminal⟩

/-- **What a consumer is handed.** Exactly the events of the upstream, if
they make an acceptable stream; otherwise the events of a first part and one
error. That part is the whole upstream only if the stream was still running
when it ended, and the error is the interruption only if no artifact was
left open then. -/
theorem sendStreaming_iff {client : Client} {target : Target} {input : Json.Bytes}
    (hstreaming : target.streaming = true)
    (hinput : (input.length : Int) ≤ client.inputLimit target)
    (hparams : messageSendParams input = .ok ()) (upstream : List (Except GoError Item)) :
    ((∀ y ∈ client.sendStreaming (.ok target) input upstream none, ∃ e, y = .ok e) ↔
        ∃ events, Projects upstream events ∧ Acceptable (client.eventLimit target) events)
      ∧ (∀ events, Projects upstream events → Acceptable (client.eventLimit target) events →
        client.sendStreaming (.ok target) input upstream none = events.map .ok
          ∧ ∃ items : List Item, upstream = items.map .ok
            ∧ events.map (·.payload) = items.map (·.result))
      ∧ ((¬∃ events, Projects upstream events ∧ Acceptable (client.eventLimit target) events) →
        ∃ n ≤ upstream.length, ∃ events err, Projects (upstream.take n) events
          ∧ client.sendStreaming (.ok target) input upstream none = events.map .ok ++ [.error err]
          ∧ (∀ e ∈ events, ¬e.Terminal)
          ∧ (∃ items : List Item, upstream.take n = items.map .ok
            ∧ events.map (·.payload) = items.map (·.result))
          ∧ (n = upstream.length ↔
            ∃ all, Projects upstream all ∧ Running (client.eventLimit target) all)
          ∧ (err = .sentinel .interrupted ↔
            ∃ all, Projects upstream all ∧ Running (client.eventLimit target) all
              ∧ Complete all)) := by
  have hsend : client.sendStreaming (.ok target) input upstream none =
      streamItems (client.eventLimit target) none .initial upstream := by
    unfold Client.sendStreaming
    rw [hparams]
    dsimp only
    rw [if_neg (by rw [hstreaming]; exact nofun), if_neg (Int.not_lt.mpr hinput)]
  have hgoes := streamItems_goes tracks_initial
    (⟨orderly_nil (client.eventLimit target), by simp⟩ : Running (client.eventLimit target) [])
    upstream
  rw [← hsend] at hgoes
  generalize client.sendStreaming (.ok target) input upstream none = out at hgoes
  cases hgoes with
  | @ends rest hrest h =>
      rw [List.nil_append] at h
      refine ⟨iff_of_true (fun y hy => ?_) ⟨rest, hrest, h⟩, fun events hevents _ => ?_,
        fun hnone => absurd ⟨rest, hrest, h⟩ hnone⟩
      · obtain ⟨e, -, rfl⟩ := List.mem_map.mp hy
        exact ⟨e, rfl⟩
      · obtain rfl := hevents.unique hrest
        exact ⟨rfl, hevents.payloads⟩
  | @stops rest err hrest h herr =>
      rw [List.nil_append] at h herr
      have hnot : ¬∃ events, Projects upstream events
          ∧ Acceptable (client.eventLimit target) events := by
        rintro ⟨events, hevents, hacceptable⟩
        obtain rfl := hevents.unique hrest
        exact hacceptable.not_running h
      refine ⟨iff_of_false (fun hall => ?_) hnot,
        fun events hevents hacceptable => absurd ⟨events, hevents, hacceptable⟩ hnot, fun _ => ?_⟩
      · obtain ⟨e, he⟩ := hall (.error err) (by simp)
        cases he
      · refine ⟨upstream.length, le_refl _, rest, err, by rwa [List.take_length], rfl, h.ongoing,
          by rw [List.take_length]; exact hrest.payloads, iff_of_true rfl ⟨rest, hrest, h⟩, ?_⟩
        rw [herr]
        constructor
        · exact fun hcomplete => ⟨rest, hrest, h, hcomplete⟩
        · rintro ⟨all, hall, -, hcomplete⟩
          rwa [hall.unique hrest] at hcomplete
  | @breaks n rest err hn hrest hongoing herr hnot =>
      refine ⟨iff_of_false (fun hall => ?_) ?_, ?_, fun _ => ?_⟩
      · obtain ⟨e, he⟩ := hall (.error err) (by simp)
        cases he
      · rintro ⟨events, hevents, hacceptable⟩
        exact (hnot events hevents).1 hacceptable
      · exact fun events hevents hacceptable => absurd hacceptable (hnot events hevents).1
      · refine ⟨n, hn.le, rest, err, hrest, rfl, hongoing, hrest.payloads, ?_, ?_⟩
        · refine iff_of_false hn.ne ?_
          rintro ⟨all, hall, hrunning⟩
          exact (hnot all hall).2 hrunning
        · refine iff_of_false herr ?_
          rintro ⟨all, hall, hrunning, -⟩
          exact (hnot all hall).2 hrunning

end Runs

/-! ## Concrete streams -/

/-- A transport whose errors are not failures of the library. -/
@[reducible] def Failures.plain : Failures where
  kindOf _ := none
  cause _ := none

def sampleTarget : Target where
  agentID := "agent-1"
  version := "1.0.0"
  capability := "echo"
  endpoint := Json.utf8 "https://agent.test/a2a"
  audience := Json.utf8 "https://agent.test"
  releaseID := ""
  cardDigest := ""
  protocol := "a2a"
  transport := "JSONRPC"
  authType := "http_bearer"
  maxInputBytes := 1024
  maxOutputBytes := 1024
  timeoutMS := 1000
  streaming := true

def sampleClient : Client := ⟨1024, 1024⟩

def statusItem (state : TaskState) (final : Bool) : Item :=
  ⟨.statusUpdate ⟨"task-1", "context-1", state, final⟩, Json.utf8 "\x7b\x7d"⟩

/-- The event of such an item. -/
def statusEvent (terminalType : ResultStreamEventType)
    (terminalStatus : InvocationStatus) : Event :=
  { Event.plain .statusUpdate "task-1" "context-1" with
    payload := Json.utf8 "\x7b\x7d", terminalType, terminalStatus }

theorem updates_statusEvents {id : String} (h : ∀ e ∈ events, e.kind = .statusUpdate) :
    updates id events = [] := by
  refine List.filter_eq_nil_iff.mpr fun e he => ?_
  rw [h e he]
  simp

/-- A task that works and is completed. -/
theorem sendStreaming_iff_completed :
    letI := Failures.plain
    let events := [statusEvent (.other "") (.other ""), statusEvent .completed .succeeded]
    sampleTarget.streaming = true ∧ Acceptable (sampleClient.eventLimit sampleTarget) events
      ∧ sampleClient.sendStreaming (.ok sampleTarget) (Json.utf8 "\x7b\x7d")
        [.ok (statusItem .working false), .ok (statusItem .completed true)] none
        = events.map .ok := by
  let _ := Failures.plain
  intro events
  have hkind : ∀ e ∈ events, e.kind = .statusUpdate := by
    simp [events, statusEvent, Event.plain]
  have hacceptable : Acceptable (sampleClient.eventLimit sampleTarget) events := by
    refine ⟨⟨?_, ?_, fun id => ?_⟩, fun id h => ?_, [statusEvent (.other "") (.other "")],
      statusEvent .completed .succeeded, rfl, by decide, by decide⟩
    · decide
    · decide
    · rw [updates_statusEvents hkind]
      exact chunkOrder_nil
    · exact absurd (updates_statusEvents hkind) h
  have hprojects : Projects
      [.ok (statusItem .working false), .ok (statusItem .completed true)] events := by
    unfold Projects
    decide +kernel
  exact ⟨rfl, hacceptable, ((sendStreaming_iff rfl (by decide) (by decide +kernel) _).2.1 events
    hprojects hacceptable).1⟩

/-- The upstream ends while the task is working. All of it is handed on
before the interruption, not only a strict part. -/
theorem sendStreaming_interrupted :
    letI := Failures.plain
    sampleTarget.streaming = true
      ∧ sampleClient.sendStreaming (.ok sampleTarget) (Json.utf8 "\x7b\x7d")
        [.ok (statusItem .working false)] none =
        [.ok (statusEvent (.other "") (.other "")), .error (.sentinel .interrupted)]
      ∧ (statusEvent (.other "") (.other "")).payload = (statusItem .working false).result := by
  decide +kernel

end A2A

end Nekiro
