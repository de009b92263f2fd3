import Nekiro.ResultStream
import Nekiro.RuntimeSequence

/-!
# The languages of the two sequence validators

Which lists of events the validators accept, as languages: the types form a
word of a small grammar, and sequence numbers and chunk indices count up
from zero. `Accept` is modelled here as the code runs it, assigning to the
fields of the validator one after the other (`acceptEvent`), so that what a
rejected event leaves behind can be stated.

The lists are taken apart at their last event. What one more event needs is
`Admits` on the side of the automaton, and on the side of the language a
lemma for each of its parts.
-/

namespace Nekiro

open Guard

/-! ## Numbered lists -/

/-- The entries are the values of `f`, from zero on. -/
def Numbered {α : Type} (f : Nat → α) (xs : List α) : Prop := xs = (List.range xs.length).map f

theorem numbered_nil {α : Type} (f : Nat → α) : Numbered f [] := rfl

theorem numbered_concat {α : Type} {f : Nat → α} {xs : List α} {x : α} :
    Numbered f (xs ++ [x]) ↔ Numbered f xs ∧ x = f xs.length := by
  unfold Numbered
  rw [List.length_append, List.length_singleton, List.range_succ, List.map_append,
    List.map_singleton, List.append_singleton_inj]

/-! ## Checks that assign to a state -/

section Checks

variable {σ ε α : Type} (check : σ → ε → Except α Unit × σ)

/-- The check accepts the inputs one after another. -/
def AcceptsAll : σ → List ε → Prop
  | _, [] => True
  | v, e :: es => (check v e).1 = .ok () ∧ AcceptsAll (check v e).2 es

/-- The state that the inputs leave behind, accepted or not. -/
def leaves (v : σ) (es : List ε) : σ := es.foldl (fun v e => (check v e).2) v

open Classical in
/-- The inputs that the check accepts on its way. -/
noncomputable def taken : σ → List ε → List ε
  | _, [] => []
  | v, e :: es =>
      if (check v e).1 = .ok () then e :: taken (check v e).2 es else taken (check v e).2 es

variable {check}

theorem acceptsAll_concat {v : σ} {es : List ε} {e : ε} :
    AcceptsAll check v (es ++ [e]) ↔
      AcceptsAll check v es ∧ (check (leaves check v es) e).1 = .ok () := by
  induction es generalizing v with
  | nil => simp [AcceptsAll, leaves]
  | cons e' es ih =>
      rw [List.cons_append, AcceptsAll, AcceptsAll, ih, and_assoc]
      rfl

/-- Where a rejected input changes nothing, only the accepted ones count. -/
theorem acceptsAll_taken (hframe : ∀ v e, (check v e).1 ≠ .ok () → (check v e).2 = v) (v : σ)
    (es : List ε) :
    AcceptsAll check v (taken check v es)
      ∧ leaves check v (taken check v es) = leaves check v es := by
  induction es generalizing v with
  | nil => exact ⟨trivial, rfl⟩
  | cons e es ih =>
      by_cases h : (check v e).1 = .ok ()
      · rw [taken, if_pos h]
        exact ⟨⟨h, (ih _).1⟩, (ih _).2⟩
      · have hleaves : leaves check v (e :: es) = leaves check v es := by
          unfold leaves
          rw [List.foldl_cons, hframe v e h]
        rw [taken, if_neg h, hframe v e h, hleaves]
        exact ih v

end Checks

/-! ## Lifecycle words -/

/-- The status that an event of the type has. -/
def EventType.status : EventType → InvocationStatus
  | .created => .pending
  | .routing => .routing
  | .started | .stream => .running
  | .succeeded => .succeeded
  | .failed => .failed
  | .canceled => .canceled
  | .timedOut => .timedOut
  | .other text => .other text

/-- The types of a whole lifecycle. -/
inductive LifecycleWord : List EventType → Prop
  | early {last : EventType} (h : last ∈ [EventType.canceled, .timedOut]) :
      LifecycleWord [.created, last]
  | routed {last : EventType} (h : last ∈ [EventType.failed, .canceled, .timedOut]) :
      LifecycleWord [.created, .routing, last]
  | ran (k : Nat) {last : EventType}
      (h : last ∈ [EventType.succeeded, .failed, .canceled, .timedOut]) :
      LifecycleWord ([.created, .routing, .started] ++ List.replicate k .stream ++ [last])

/-- The automaton goes from the one type to the other. -/
def Follows (source target : EventType) : Prop :=
  validRuntimeTransition source.status target target.status = true

/-- Types that the automaton passes, the last one apart. -/
inductive Path : List EventType → EventType → Prop
  | created : Path [] .created
  | step {before : List EventType} {last next : EventType} (h : Path before last)
      (hnext : Follows last next) : Path (before ++ [last]) next

variable {source target t last : EventType} {before types : List EventType}
  {e : InvocationResultStreamEventV2}

theorem follows_pending (hsource : source.status = .pending) (h : Follows source target) :
    target = .routing ∨ target ∈ [EventType.canceled, .timedOut] := by
  unfold Follows at h
  rw [hsource] at h
  cases target <;> simp_all [validRuntimeTransition, EventType.status]

theorem follows_routing (hsource : source.status = .routing) (h : Follows source target) :
    target = .started ∨ target ∈ [EventType.failed, .canceled, .timedOut] := by
  unfold Follows at h
  rw [hsource] at h
  cases target <;> simp_all [validRuntimeTransition, EventType.status]

theorem follows_running (hsource : source.status = .running) (h : Follows source target) :
    target = .stream ∨ target ∈ [EventType.succeeded, .failed, .canceled, .timedOut] := by
  unfold Follows at h
  rw [hsource] at h
  cases target <;> simp_all [validRuntimeTransition, EventType.status]

theorem path_nil_iff : Path [] t ↔ t = .created := by
  constructor
  · intro h
    generalize hnil : ([] : List EventType) = before at h
    cases h with
    | created => rfl
    | step => simp at hnil
  · rintro rfl
    exact .created

theorem path_concat_iff {next : EventType} :
    Path (before ++ [last]) next ↔ Path before last ∧ Follows last next := by
  constructor
  · intro h
    generalize hconcat : before ++ [last] = types at h
    cases h with
    | created => simp at hconcat
    | step h hnext =>
        obtain ⟨rfl, rfl⟩ := List.append_singleton_inj.mp hconcat
        exact ⟨h, hnext⟩
  · rintro ⟨h, hnext⟩
    exact .step h hnext

/-- How far a path has come. -/
theorem Path.cases (h : Path before last) :
    (before = [] ∧ last = .created) ∨ (before = [.created] ∧ last = .routing)
      ∨ (last.status = .running
        ∧ ∃ k, before ++ [last] = [.created, .routing, .started] ++ List.replicate k .stream)
      ∨ (isRuntimeTerminalStatus last.status = true ∧ LifecycleWord (before ++ [last])) := by
  induction h with
  | created => exact .inl ⟨rfl, rfl⟩
  | @step before last next _ hnext ih =>
      rcases ih with ⟨rfl, rfl⟩ | ⟨rfl, rfl⟩ | ⟨hstatus, k, hk⟩ | ⟨hterminal, -⟩
      · rcases follows_pending rfl hnext with rfl | hnext
        · exact .inr (.inl ⟨rfl, rfl⟩)
        · refine .inr (.inr (.inr ⟨?_, .early hnext⟩))
          simp only [List.mem_cons, List.not_mem_nil, or_false] at hnext
          rcases hnext with rfl | rfl <;> rfl
      · rcases follows_routing rfl hnext with rfl | hnext
        · exact .inr (.inr (.inl ⟨rfl, 0, rfl⟩))
        · refine .inr (.inr (.inr ⟨?_, .routed hnext⟩))
          simp only [List.mem_cons, List.not_mem_nil, or_false] at hnext
          rcases hnext with rfl | rfl | rfl <;> rfl
      · rcases follows_running hstatus hnext with rfl | hnext
        · refine .inr (.inr (.inl ⟨rfl, k + 1, ?_⟩))
          rw [hk, List.replicate_succ', List.append_assoc]
        · refine .inr (.inr (.inr ⟨?_, ?_⟩))
          · simp only [List.mem_cons, List.not_mem_nil, or_false] at hnext
            rcases hnext with rfl | rfl | rfl | rfl <;> rfl
          · rw [hk]
            exact .ran k hnext
      · have hlive := not_terminal_of_transition hnext
        rw [hterminal] at hlive
        cases hlive

/-- Every path can be finished. -/
theorem Path.exists_word (h : Path before last) :
    ∃ word, LifecycleWord word ∧ before ++ [last] <+: word := by
  rcases h.cases with ⟨rfl, rfl⟩ | ⟨rfl, rfl⟩ | ⟨-, k, hk⟩ | ⟨-, hword⟩
  · exact ⟨_, .early (List.mem_cons_self : EventType.canceled ∈ _), [.canceled], rfl⟩
  · exact ⟨_, .routed (List.mem_cons_self : EventType.failed ∈ _), [.failed], rfl⟩
  · exact ⟨_, .ran k (List.mem_cons_self : EventType.succeeded ∈ _), [.succeeded], by rw [hk]⟩
  · exact ⟨_, hword, List.prefix_rfl⟩

theorem path_running (k : Nat) :
    ∃ before last, Path before last ∧ last.status = .running
      ∧ before ++ [last] = [.created, .routing, .started] ++ List.replicate k .stream := by
  induction k with
  | zero =>
      refine ⟨[.created, .routing], .started, ?_, rfl, rfl⟩
      exact @Path.step [.created] .routing .started (.step .created rfl) rfl
  | succ k ih =>
      obtain ⟨before, last, hpath, hstatus, hk⟩ := ih
      refine ⟨before ++ [last], .stream, .step hpath ?_, rfl, ?_⟩
      · unfold Follows
        rw [hstatus]
        rfl
      · rw [hk, List.replicate_succ', List.append_assoc]

theorem LifecycleWord.path {word : List EventType} (h : LifecycleWord word) :
    ∃ before last, Path before last ∧ word = before ++ [last] := by
  cases h with
  | @early last h =>
      refine ⟨[.created], last, .step .created ?_, rfl⟩
      simp only [List.mem_cons, List.not_mem_nil, or_false] at h
      rcases h with rfl | rfl <;> rfl
  | @routed last h =>
      refine ⟨[.created, .routing], last, @Path.step [.created] .routing _ (.step .created rfl) ?_,
        rfl⟩
      simp only [List.mem_cons, List.not_mem_nil, or_false] at h
      rcases h with rfl | rfl | rfl <;> rfl
  | @ran k last h =>
      obtain ⟨before, running, hpath, hstatus, hk⟩ := path_running k
      refine ⟨before ++ [running], last, .step hpath ?_, by rw [hk]⟩
      unfold Follows
      rw [hstatus]
      simp only [List.mem_cons, List.not_mem_nil, or_false] at h
      rcases h with rfl | rfl | rfl | rfl <;> rfl

/-- What comes before on a path is a path. -/
theorem Path.of_append {rest : List EventType} (h : Path before last)
    (heq : before ++ [last] = types ++ [t] ++ rest) : Path types t := by
  induction h generalizing rest with
  | created =>
      cases rest using List.reverseRecOn with
      | nil =>
          rw [List.append_nil, List.append_singleton_inj] at heq
          obtain ⟨rfl, rfl⟩ := heq
          exact .created
      | append_singleton rest r =>
          rw [← List.append_assoc, List.append_singleton_inj] at heq
          simp at heq
  | @step before last next hpath hnext ih =>
      cases rest using List.reverseRecOn with
      | nil =>
          rw [List.append_nil, List.append_singleton_inj] at heq
          obtain ⟨rfl, rfl⟩ := heq
          exact .step hpath hnext
      | append_singleton rest r =>
          rw [← List.append_assoc, List.append_singleton_inj] at heq
          exact ih heq.1

/-- The types form a prefix of a lifecycle. -/
def LifecyclePrefix (types : List EventType) : Prop :=
  ∃ word, LifecycleWord word ∧ types <+: word

theorem lifecyclePrefix_concat : LifecyclePrefix (types ++ [t]) ↔ Path types t := by
  constructor
  · rintro ⟨word, hword, rest, hrest⟩
    obtain ⟨before, last, hpath, rfl⟩ := hword.path
    exact hpath.of_append hrest.symm
  · exact Path.exists_word

theorem lifecyclePrefix_nil : LifecyclePrefix [] :=
  ⟨_, .early (List.mem_cons_self : EventType.canceled ∈ _), List.nil_prefix⟩

/-! ## The lifecycle language -/

theorem InvocationEventV03.status_of_shape {e : InvocationEventV03} (h : e.shape = true) :
    e.status = e.type.status := by
  cases e.form_of_shape h with
  | progress htype => rcases htype with ⟨ht, hs⟩ | ⟨ht, hs⟩ | ⟨ht, hs⟩ <;> rw [ht, hs] <;> rfl
  | stream _ _ ht hs => rw [ht, hs]; rfl
  | success _ ht hs => rw [ht, hs]; rfl
  | failure _ _ htype =>
      rcases htype with ⟨ht, hs, -⟩ | ⟨ht, hs, -⟩ | ⟨ht, hs, -⟩ <;> rw [ht, hs] <;> rfl

/-- The chunk indices of the stream events. -/
def chunkIndices (es : List InvocationEventV03) : List (Option Int) :=
  (es.filter fun e => e.type = .stream).map (·.chunkIndex)

/-- The events of one lifecycle, as far as it has come. -/
@[mk_iff]
structure IsLifecycle (es : List InvocationEventV03) : Prop where
  sequence : Numbered (fun i => (i : Int)) (es.map (·.sequence))
  context : ∀ e ∈ es, ∀ e' ∈ es, e.toInvocationContext = e'.toInvocationContext
  types : LifecyclePrefix (es.map (·.type))
  chunks : Numbered (fun i => some (i : Int)) (chunkIndices es)

theorem chunkIndices_concat (es : List InvocationEventV03) (e : InvocationEventV03) :
    chunkIndices (es ++ [e]) =
      if e.type = .stream then chunkIndices es ++ [e.chunkIndex] else chunkIndices es := by
  unfold chunkIndices
  rw [List.filter_append, List.map_append]
  split_ifs with h <;> simp [h]

namespace RuntimeInvocationSequenceValidator

theorem nextAll_fresh_nextChunkIndex (es : List InvocationEventV03) :
    (fresh.nextAll es).nextChunkIndex = (chunkIndices es).length := by
  induction es using List.reverseRecOn with
  | nil => rfl
  | append_singleton es e ih =>
      rw [nextAll_concat, chunkIndices_concat, next]
      simp only [ih]
      split_ifs <;> simp

/-- One more event on both sides. -/
theorem isLifecycle_concat {es : List InvocationEventV03} {e : InvocationEventV03}
    (hes : ∀ e' ∈ es, e'.shape = true) (he : e.shape = true) :
    IsLifecycle (es ++ [e]) ↔ IsLifecycle es ∧ (fresh.nextAll es).Admits e := by
  have hsequence : (fresh.nextAll es).nextSequence = es.length := by
    rw [nextAll_nextSequence]
    exact Int.zero_add _
  have hchunk := nextAll_fresh_nextChunkIndex es
  obtain ⟨hlast, hterminal⟩ := nextAll_fresh_last es
  have hnumbered : Numbered (fun i => (i : Int)) ((es ++ [e]).map (·.sequence)) ↔
      Numbered (fun i => (i : Int)) (es.map (·.sequence)) ∧ e.sequence = es.length := by
    rw [List.map_append, List.map_singleton, numbered_concat, List.length_map]
  have hchunks : Numbered (fun i => some (i : Int)) (chunkIndices (es ++ [e])) ↔
      Numbered (fun i => some (i : Int)) (chunkIndices es)
        ∧ (e.type = .stream → e.chunkIndex = some ((chunkIndices es).length : Int)) := by
    rw [chunkIndices_concat]
    split_ifs with hstream
    · rw [numbered_concat]
      simp [hstream]
    · simp [hstream]
  have hstatus := e.status_of_shape he
  rcases List.eq_nil_or_concat' es with rfl | ⟨es', last, rfl⟩
  · -- the first event
    have htypes : LifecyclePrefix (([] ++ [e]).map InvocationEventV03.type) ↔
        e.type = .created := by
      rw [← path_nil_iff, ← lifecyclePrefix_concat]
      rfl
    constructor
    · rintro ⟨hseq, -, hword, hchunks'⟩
      have htype := htypes.mp hword
      refine ⟨⟨numbered_nil _, by simp, lifecyclePrefix_nil, numbered_nil _⟩, rfl,
        (hnumbered.mp hseq).2, fun _ => ⟨htype, ?_⟩, by simp [hlast], by simp [hlast],
        (hchunks.mp hchunks').2⟩
      rw [hstatus, htype]
      rfl
    · rintro ⟨-, hadmits⟩
      refine ⟨hnumbered.mpr ⟨numbered_nil _, hadmits.sequence⟩, ?_, ?_,
        hchunks.mpr ⟨numbered_nil _, hadmits.chunk⟩⟩
      · intro a ha b hb
        rw [List.nil_append, List.mem_singleton] at ha hb
        rw [ha, hb]
      · exact htypes.mpr (hadmits.start rfl).1
  · -- one after `last`
    have hstatus' := last.status_of_shape (hes last (by simp))
    have hlast' : (fresh.nextAll (es' ++ [last])).last = some last := by
      rw [hlast, List.getLast?_concat]
    have htypes : LifecyclePrefix ((es' ++ [last] ++ [e]).map (·.type)) ↔
        LifecyclePrefix ((es' ++ [last]).map (·.type))
          ∧ validRuntimeTransition last.status e.type e.status = true := by
      rw [List.map_append, List.map_append, List.map_singleton, List.map_singleton,
        lifecyclePrefix_concat, lifecyclePrefix_concat, path_concat_iff, Follows, hstatus, hstatus']
    constructor
    · rintro ⟨hseq, hcontext, hword, hchunks'⟩
      obtain ⟨hword, htransition⟩ := htypes.mp hword
      refine ⟨⟨(hnumbered.mp hseq).1, fun a ha b hb => hcontext a (List.mem_append_left _ ha) b
        (List.mem_append_left _ hb), hword, (hchunks.mp hchunks').1⟩, ?_, ?_, ?_, ?_, ?_, ?_⟩
      · rw [hterminal, List.getLast?_concat]
        exact not_terminal_of_transition htransition
      · rw [hsequence]
        exact (hnumbered.mp hseq).2
      · simp [hlast']
      · intro l hl
        obtain rfl := Option.some.inj (hlast'.symm.trans hl)
        exact hcontext last (by simp) e (by simp)
      · intro l hl
        obtain rfl := Option.some.inj (hlast'.symm.trans hl)
        exact htransition
      · rw [hchunk]
        exact (hchunks.mp hchunks').2
    · rintro ⟨⟨hseq, hcontext, hword, hchunks'⟩, hadmits⟩
      rw [admits_iff, hsequence, hchunk] at hadmits
      obtain ⟨-, hseq', -, hcontext', htransition, hchunk'⟩ := hadmits
      refine ⟨hnumbered.mpr ⟨hseq, hseq'⟩, ?_, htypes.mpr ⟨hword, htransition last hlast'⟩,
        hchunks.mpr ⟨hchunks', hchunk'⟩⟩
      have hall : ∀ a ∈ es' ++ [last] ++ [e], a.toInvocationContext = e.toInvocationContext := by
        intro a ha
        rcases List.mem_append.mp ha with ha | ha
        · exact (hcontext a ha last (by simp)).trans (hcontext' last hlast')
        · rw [List.mem_singleton.mp ha]
      exact fun a ha b hb => (hall a ha).trans (hall b hb).symm

/-- The automaton admits the lifecycles. -/
theorem admitsAll_fresh_iff {es : List InvocationEventV03} (hes : ∀ e ∈ es, e.shape = true) :
    fresh.AdmitsAll es ↔ IsLifecycle es := by
  induction es using List.reverseRecOn with
  | nil =>
      exact iff_of_true trivial ⟨numbered_nil _, by simp, lifecyclePrefix_nil, numbered_nil _⟩
  | append_singleton es e ih =>
      obtain ⟨hshapes, hshape⟩ := List.forall_mem_append.mp hes
      rw [admitsAll_concat, isLifecycle_concat hshapes (hshape e (by simp)), ih hshapes]

/-! ### `Accept` as it assigns -/

section Accept

variable [Semver]

/-- `Accept`, with the validator it leaves behind. -/
def acceptEvent (v : RuntimeInvocationSequenceValidator) (e : InvocationEventV03) :
    Except ContractError Unit × RuntimeInvocationSequenceValidator :=
  if v.terminal then (.error .sequenceTerminal, v)
  else match validateInvocationEventV03 e with
    | .error err => (.error err, v)
    | .ok () =>
        if e.sequence ≠ v.nextSequence then
          (.error (.message ("invocation event sequence must be " ++ toString v.nextSequence)), v)
        else match v.continues e with
          | .error err => (.error err, v)
          | .ok () =>
              if e.type = .stream ∧ e.chunkIndex ≠ some v.nextChunkIndex then
                (.error (.message
                  ("invocation stream chunk index must be " ++ toString v.nextChunkIndex)), v)
              else
                let v := if e.type = .stream then { v with nextChunkIndex := v.nextChunkIndex + 1 }
                  else v
                let v := { v with nextSequence := v.nextSequence + 1 }
                let v := { v with last := some e }
                let v := { v with terminal := isRuntimeTerminalStatus e.status }
                (.ok (), v)

/-- An event is accepted and the validator goes on, or it is rejected and
the validator is as before. -/
theorem acceptEvent_eq (v : RuntimeInvocationSequenceValidator) (e : InvocationEventV03) :
    v.acceptEvent e =
      match v.accept e with
      | .ok v' => (.ok (), v')
      | .error err => (.error err, v) := by
  unfold acceptEvent accept
  by_cases hterminal : v.terminal = true
  · simp [hterminal, require, error_bind]
  · rw [if_neg hterminal]
    simp only [Bool.not_eq_true] at hterminal
    rw [hterminal]
    cases validateInvocationEventV03 e with
    | error err => rfl
    | ok _ =>
        by_cases hsequence : e.sequence = v.nextSequence
        · cases hcontinues : v.continues e with
          | error err => simp [hsequence, require, ok_bind, error_bind]
          | ok _ =>
              by_cases hstream : e.type = .stream
              · by_cases hchunk : e.chunkIndex = some v.nextChunkIndex
                · simp [hsequence, require, ok_bind, hstream, hchunk, next, pure, Except.pure]
                · simp [hsequence, require, ok_bind, hstream, hchunk]
              · simp [hsequence, require, ok_bind, hstream, next, pure, Except.pure]
        · simp [hsequence, require, ok_bind, error_bind]

variable {v : RuntimeInvocationSequenceValidator} {e : InvocationEventV03}

theorem acceptEvent_ok_iff :
    (v.acceptEvent e).1 = .ok () ↔ validateInvocationEventV03 e = .ok () ∧ v.Admits e := by
  rw [acceptEvent_eq]
  constructor
  · intro h
    cases haccept : v.accept e with
    | ok v' => exact ⟨(accept_ok_iff.mp haccept).1, (accept_ok_iff.mp haccept).2.1⟩
    | error err =>
        rw [haccept] at h
        cases h
  · rintro ⟨hvalid, hadmits⟩
    rw [accept_ok_iff.mpr ⟨hvalid, hadmits, rfl⟩]

theorem acceptEvent_snd_of_ok (h : (v.acceptEvent e).1 = .ok ()) :
    (v.acceptEvent e).2 = v.next e := by
  obtain ⟨hvalid, hadmits⟩ := acceptEvent_ok_iff.mp h
  rw [acceptEvent_eq, accept_ok_iff.mpr ⟨hvalid, hadmits, rfl⟩]

theorem acceptEvent_snd_of_error (h : (v.acceptEvent e).1 ≠ .ok ()) : (v.acceptEvent e).2 = v := by
  rw [acceptEvent_eq] at h ⊢
  cases haccept : v.accept e with
  | ok v' =>
      rw [haccept] at h
      exact absurd rfl h
  | error err => rfl

theorem acceptsAll_acceptEvent_iff {es : List InvocationEventV03} :
    AcceptsAll acceptEvent v es ↔
      (∀ e ∈ es, validateInvocationEventV03 e = .ok ()) ∧ v.AdmitsAll es := by
  induction es generalizing v with
  | nil => simp [AcceptsAll, AdmitsAll]
  | cons e es ih =>
      rw [AcceptsAll, AdmitsAll, List.forall_mem_cons]
      constructor
      · rintro ⟨haccept, hrest⟩
        rw [acceptEvent_snd_of_ok haccept, ih] at hrest
        obtain ⟨hvalid, hadmits⟩ := acceptEvent_ok_iff.mp haccept
        exact ⟨⟨hvalid, hrest.1⟩, hadmits, hrest.2⟩
      · rintro ⟨⟨hvalid, hvalids⟩, hadmits, hrest⟩
        have haccept := acceptEvent_ok_iff.mpr ⟨hvalid, hadmits⟩
        rw [acceptEvent_snd_of_ok haccept, ih]
        exact ⟨haccept, hvalids, hrest⟩

end Accept

end RuntimeInvocationSequenceValidator

/-! ## The language of the result stream -/

/-- The types of a result stream, as far as it has come. -/
inductive StreamWord : List ResultStreamEventType → Prop
  | empty : StreamWord []
  | running (k : Nat) : StreamWord (.accepted :: List.replicate k .chunk)
  | finished (k : Nat) {last : ResultStreamEventType} (h : last.isTerminal = true) :
      StreamWord (.accepted :: List.replicate k .chunk ++ [last])

theorem streamWord_singleton {t : ResultStreamEventType} : StreamWord [t] ↔ t = .accepted := by
  constructor
  · intro h
    generalize hword : [t] = word at h
    cases h with
    | empty => cases hword
    | running k => exact (List.cons.inj hword).1
    | finished k h => simp at hword
  · rintro rfl
    exact .running 0

theorem running_of_streamWord {types : List ResultStreamEventType} (h : StreamWord types)
    (hne : types ≠ []) (hlive : types.getLast?.any (·.isTerminal) = false) :
    ∃ k, types = .accepted :: List.replicate k .chunk := by
  cases h with
  | empty => exact absurd rfl hne
  | running k => exact ⟨k, rfl⟩
  | finished k hlast =>
      rw [List.getLast?_concat, Option.any_some, hlast] at hlive
      cases hlive

theorem getLast?_running_any_isTerminal (k : Nat) :
    (ResultStreamEventType.accepted :: List.replicate k .chunk).getLast?.any (·.isTerminal)
      = false := by
  rw [List.getLast?_cons, List.getLast?_replicate]
  cases k <;> rfl

/-- One more type, after the first. -/
theorem streamWord_concat {types : List ResultStreamEventType} {t : ResultStreamEventType}
    (hne : types ≠ []) :
    StreamWord (types ++ [t]) ↔
      StreamWord types ∧ types.getLast?.any (·.isTerminal) = false
        ∧ (t = .chunk ∨ t.isTerminal = true) := by
  constructor
  · intro h
    generalize hword : types ++ [t] = word at h
    cases h with
    | empty => simp at hword
    | running k =>
        cases k with
        | zero =>
            rw [List.replicate_zero, ← List.nil_append [ResultStreamEventType.accepted],
              List.append_singleton_inj] at hword
            exact absurd hword.1 hne
        | succ k =>
            rw [List.replicate_succ', ← List.cons_append, List.append_singleton_inj] at hword
            obtain ⟨rfl, rfl⟩ := hword
            exact ⟨.running k, getLast?_running_any_isTerminal k, .inl rfl⟩
    | finished k hlast =>
        obtain ⟨rfl, rfl⟩ := List.append_singleton_inj.mp hword
        exact ⟨.running k, getLast?_running_any_isTerminal k, .inr hlast⟩
  · rintro ⟨hword, hlive, ht⟩
    obtain ⟨k, rfl⟩ := running_of_streamWord hword hne hlive
    rcases ht with rfl | ht
    · rw [List.cons_append, ← List.replicate_succ']
      exact .running (k + 1)
    · exact .finished k ht

theorem InvocationResultStreamEventV2.shape_of_valid
    (h : validateInvocationResultStreamEventV2 e = .ok ()) : e.shape = true :=
  (require_ok_iff.mp (check_bind_ok_iff.mp h).1).shape

theorem InvocationResultStreamEventV2.type_of_shape (h : e.shape = true) :
    e.type ≠ .accepted ↔ e.type = .chunk ∨ e.type.isTerminal = true := by
  unfold shape at h
  cases ht : e.type with
  | other text =>
      rw [ht] at h
      cases h
  | _ => simp [ResultStreamEventType.isTerminal]

namespace RuntimeResultStreamSequenceValidator

/-- The chunk indices of the chunk events. -/
def chunkIndices (es : List InvocationResultStreamEventV2) : List (Option Int) :=
  (es.filter fun e => e.type = .chunk).map (·.chunkIndex)

theorem chunkIndices_concat (es : List InvocationResultStreamEventV2)
    (e : InvocationResultStreamEventV2) :
    chunkIndices (es ++ [e]) =
      if e.type = .chunk then chunkIndices es ++ [e.chunkIndex] else chunkIndices es := by
  unfold chunkIndices
  rw [List.filter_append, List.map_append]
  split_ifs with h <;> simp [h]

/-- The events of one result stream, as far as it has come. -/
structure IsResultStream (invocationID rootTaskID traceID : String)
    (es : List InvocationResultStreamEventV2) : Prop where
  sequence : Numbered (fun i => (i : Int)) (es.map (·.sequence))
  correlation : ∀ e ∈ es,
    e.invocationID = invocationID ∧ e.rootTaskID = rootTaskID ∧ e.traceID = traceID
  types : StreamWord (es.map (·.type))
  chunks : Numbered (fun i => some (i : Int)) (chunkIndices es)

/-- The validator after the events. -/
def after (invocationID rootTaskID traceID : String) (es : List InvocationResultStreamEventV2) :
    RuntimeResultStreamSequenceValidator where
  invocationID := invocationID
  rootTaskID := rootTaskID
  traceID := traceID
  nextSequence := es.length
  nextChunkIndex := (chunkIndices es).length
  terminal := (es.map (·.type)).getLast?.any (·.isTerminal)
  closed := false

section Language

variable {invocationID rootTaskID traceID : String} {es : List InvocationResultStreamEventV2}
  {e : InvocationResultStreamEventV2}

theorem next_after :
    (after invocationID rootTaskID traceID es).next e =
      after invocationID rootTaskID traceID (es ++ [e]) := by
  unfold next after
  rw [chunkIndices_concat, List.map_append, List.map_singleton, List.getLast?_concat]
  split_ifs <;> simp

theorem isResultStream_concat (he : e.shape = true) :
    IsResultStream invocationID rootTaskID traceID (es ++ [e]) ↔
      IsResultStream invocationID rootTaskID traceID es
        ∧ (after invocationID rootTaskID traceID es).Admits e := by
  have hnumbered : Numbered (fun i => (i : Int)) ((es ++ [e]).map (·.sequence)) ↔
      Numbered (fun i => (i : Int)) (es.map (·.sequence)) ∧ e.sequence = es.length := by
    rw [List.map_append, List.map_singleton, numbered_concat, List.length_map]
  have hchunks : Numbered (fun i => some (i : Int)) (chunkIndices (es ++ [e])) ↔
      Numbered (fun i => some (i : Int)) (chunkIndices es)
        ∧ (e.type = .chunk → e.chunkIndex = some ((chunkIndices es).length : Int)) := by
    rw [chunkIndices_concat]
    split_ifs with h
    · rw [numbered_concat]
      simp [h]
    · simp [h]
  have htypes : StreamWord ((es ++ [e]).map (·.type)) ↔
      StreamWord (es.map (·.type)) ∧ (es.map (·.type)).getLast?.any (·.isTerminal) = false
        ∧ ((es.length : Int) = 0 → e.type = .accepted)
        ∧ (0 < (es.length : Int) → e.type ≠ .accepted) := by
    rw [List.map_append, List.map_singleton]
    cases es with
    | nil => simpa [StreamWord.empty] using streamWord_singleton
    | cons e' es =>
        rw [streamWord_concat (by simp), ← e.type_of_shape he]
        simp only [List.length_cons]
        grind
  constructor
  · rintro ⟨hseq, hcorrelation, hword, hchunks'⟩
    obtain ⟨hword, hlive, hfirst, hlater⟩ := htypes.mp hword
    obtain ⟨hseq, hsequence⟩ := hnumbered.mp hseq
    obtain ⟨hchunks', hchunk⟩ := hchunks.mp hchunks'
    obtain ⟨hcorrelations, hcorrelation⟩ := List.forall_mem_append.mp hcorrelation
    exact ⟨⟨hseq, hcorrelations, hword, hchunks'⟩,
      ⟨rfl, hlive, hcorrelation e (List.mem_singleton_self e), hsequence, hfirst, hlater, hchunk⟩⟩
  · rintro ⟨⟨hseq, hcorrelations, hword, hchunks'⟩, hadmits⟩
    refine ⟨hnumbered.mpr ⟨hseq, hadmits.sequence⟩, ?_,
      htypes.mpr ⟨hword, hadmits.live, hadmits.first, hadmits.later⟩,
      hchunks.mpr ⟨hchunks', hadmits.chunk⟩⟩
    refine List.forall_mem_append.mpr ⟨hcorrelations, fun e' he' => ?_⟩
    rw [List.mem_singleton.mp he']
    exact hadmits.correlation

end Language

/-! ### `Accept` and `Finish` as they assign -/

/-- `Accept`, with the validator it leaves behind. -/
def acceptEvent (v : RuntimeResultStreamSequenceValidator) (e : InvocationResultStreamEventV2) :
    Except ContractError Unit × RuntimeResultStreamSequenceValidator :=
  if v.closed then (.error .streamClosed, v)
  else if v.terminal then (.error .sequenceTerminal, v)
  else match validateInvocationResultStreamEventV2 e with
    | .error err => (.error err, v)
    | .ok () =>
        if e.invocationID ≠ v.invocationID ∨ e.rootTaskID ≠ v.rootTaskID
          ∨ e.traceID ≠ v.traceID then
          (.error (.message "result stream correlation changed"), v)
        else if e.sequence ≠ v.nextSequence then
          (.error (.message ("result stream sequence must be " ++ toString v.nextSequence)), v)
        else if v.nextSequence = 0 ∧ e.type ≠ .accepted then
          (.error (.message "result stream must begin with accepted"), v)
        else if 0 < v.nextSequence ∧ e.type = .accepted then
          (.error (.message "result stream accepted event must be first"), v)
        else if e.type = .chunk ∧ e.chunkIndex ≠ some v.nextChunkIndex then
          (.error (.message ("result stream chunk index must be " ++ toString v.nextChunkIndex)), v)
        else
          let v := if e.type = .chunk then { v with nextChunkIndex := v.nextChunkIndex + 1 } else v
          let v := { v with nextSequence := v.nextSequence + 1 }
          let v := { v with terminal := e.type.isTerminal }
          (.ok (), v)

/-- `Finish`, with the validator it leaves behind. -/
def finish (v : RuntimeResultStreamSequenceValidator) :
    Except ContractError Unit × RuntimeResultStreamSequenceValidator :=
  if v.closed then (.error .streamClosed, v)
  else
    let v := { v with closed := true }
    if v.terminal then (.ok (), v) else (.error .streamInterrupted, v)

theorem acceptEvent_cases (v : RuntimeResultStreamSequenceValidator)
    (e : InvocationResultStreamEventV2) :
    (v.acceptEvent e = (.ok (), v.next e)
        ∧ validateInvocationResultStreamEventV2 e = .ok () ∧ v.Admits e)
      ∨ ((∃ err, v.acceptEvent e = (.error err, v))
        ∧ ¬(validateInvocationResultStreamEventV2 e = .ok () ∧ v.Admits e)) := by
  unfold acceptEvent
  cases hvalid : validateInvocationResultStreamEventV2 e with
  | error err =>
      refine .inr ⟨?_, fun h => by cases h.1⟩
      split_ifs <;> exact ⟨_, rfl⟩
  | ok _ =>
      split_ifs with hclosed hterminal hcorrelation hsequence hfirst hlater hchunk htype
      all_goals simp only [admits_iff, next]
      all_goals grind

variable {v : RuntimeResultStreamSequenceValidator} {e : InvocationResultStreamEventV2}

theorem acceptEvent_ok_iff :
    (v.acceptEvent e).1 = .ok () ↔ validateInvocationResultStreamEventV2 e = .ok ()
      ∧ v.Admits e := by
  rcases v.acceptEvent_cases e with ⟨heq, h⟩ | ⟨⟨err, heq⟩, h⟩
  · exact iff_of_true (by rw [heq]) h
  · exact iff_of_false (by rw [heq]; exact nofun) h

theorem acceptEvent_snd_of_ok (h : (v.acceptEvent e).1 = .ok ()) :
    (v.acceptEvent e).2 = v.next e := by
  rcases v.acceptEvent_cases e with ⟨heq, -⟩ | ⟨⟨err, heq⟩, -⟩
  · rw [heq]
  · rw [heq] at h
    cases h

theorem acceptEvent_snd_of_error (h : (v.acceptEvent e).1 ≠ .ok ()) : (v.acceptEvent e).2 = v := by
  rcases v.acceptEvent_cases e with ⟨heq, -⟩ | ⟨⟨err, heq⟩, -⟩
  · rw [heq] at h
    exact absurd rfl h
  · rw [heq]

section Runs

variable {invocationID rootTaskID traceID : String} {es : List InvocationResultStreamEventV2}

theorem leaves_acceptEvent
    (h : AcceptsAll acceptEvent (after invocationID rootTaskID traceID []) es) :
    leaves acceptEvent (after invocationID rootTaskID traceID []) es =
      after invocationID rootTaskID traceID es := by
  induction es using List.reverseRecOn with
  | nil => rfl
  | append_singleton es e ih =>
      obtain ⟨hes, he⟩ := acceptsAll_concat.mp h
      have hleaves := ih hes
      rw [hleaves] at he
      rw [← next_after, ← acceptEvent_snd_of_ok he, ← hleaves]
      unfold leaves
      rw [List.foldl_concat]

theorem acceptsAll_acceptEvent_iff :
    AcceptsAll acceptEvent (after invocationID rootTaskID traceID []) es ↔
      (∀ e ∈ es, validateInvocationResultStreamEventV2 e = .ok ())
        ∧ IsResultStream invocationID rootTaskID traceID es := by
  induction es using List.reverseRecOn with
  | nil =>
      exact iff_of_true trivial ⟨by simp, numbered_nil _, by simp, .empty, numbered_nil _⟩
  | append_singleton es e ih =>
      rw [acceptsAll_concat, List.forall_mem_append, List.forall_mem_singleton]
      constructor
      · rintro ⟨hes, he⟩
        rw [leaves_acceptEvent hes, acceptEvent_ok_iff] at he
        obtain ⟨hvalids, hstream⟩ := ih.mp hes
        have hshape := e.shape_of_valid he.1
        exact ⟨⟨hvalids, he.1⟩, (isResultStream_concat hshape).mpr ⟨hstream, he.2⟩⟩
      · rintro ⟨⟨hvalids, hvalid⟩, hstream⟩
        have hshape := e.shape_of_valid hvalid
        obtain ⟨hstream, hadmits⟩ := (isResultStream_concat hshape).mp hstream
        have hes := ih.mpr ⟨hvalids, hstream⟩
        rw [leaves_acceptEvent hes]
        exact ⟨hes, acceptEvent_ok_iff.mpr ⟨hvalid, hadmits⟩⟩

theorem finish_ok_iff {v : RuntimeResultStreamSequenceValidator} :
    v.finish.1 = .ok () ↔ v.closed = false ∧ v.terminal = true := by
  unfold finish
  by_cases hclosed : v.closed = true
  · simp [hclosed]
  · by_cases hterminal : v.terminal = true <;> simp [hclosed, hterminal]

/-- A terminal event is the last one. -/
theorem terminal_after_iff {es : List InvocationResultStreamEventV2}
    (h : StreamWord (es.map (·.type))) :
    (after invocationID rootTaskID traceID es).terminal = true ↔
      ∃ e ∈ es, e.type.isTerminal = true := by
  have hmem : (∃ e ∈ es, e.type.isTerminal = true) ↔
      ∃ t ∈ es.map (·.type), t.isTerminal = true := by simp
  rw [hmem, after]
  generalize es.map (·.type) = types at h
  cases h with
  | empty => simp
  | running k =>
      refine iff_of_false (by simp [getLast?_running_any_isTerminal k]) ?_
      rintro ⟨t, ht, hterminal⟩
      rcases List.mem_cons.mp ht with rfl | ht
      · cases hterminal
      · rw [List.eq_of_mem_replicate ht] at hterminal
        cases hterminal
  | @finished k last hlast =>
      refine iff_of_true ?_ ⟨last, by simp, hlast⟩
      rw [List.getLast?_concat, Option.any_some, hlast]

/-- The first `Finish`, after events of which some may have been rejected. -/
theorem finish_leaves_ok_iff :
    (leaves acceptEvent (after invocationID rootTaskID traceID []) es).finish.1 = .ok () ↔
      ∃ e ∈ taken acceptEvent (after invocationID rootTaskID traceID []) es,
        e.type.isTerminal = true := by
  obtain ⟨haccepts, hleaves⟩ := acceptsAll_taken (fun _ _ => acceptEvent_snd_of_error)
    (after invocationID rootTaskID traceID []) es
  rw [finish_ok_iff, ← hleaves, leaves_acceptEvent haccepts,
    terminal_after_iff (acceptsAll_acceptEvent_iff.mp haccepts).2.types]
  exact and_iff_right rfl

theorem eq_after_of_new {v : RuntimeResultStreamSequenceValidator}
    (h : newRuntimeResultStreamSequenceValidator invocationID rootTaskID traceID = .ok v) :
    v = after invocationID rootTaskID traceID [] := by
  unfold newRuntimeResultStreamSequenceValidator at h
  simp only [check_bind_ok_iff, pure, Except.pure, Except.ok.injEq] at h
  exact h.2.2.2.symm

end Runs

end RuntimeResultStreamSequenceValidator

/-! ## Both languages -/

/-- A fresh lifecycle validator accepts the lifecycles and a new stream
validator the result streams, as far as they have come. A rejected event
leaves both as they were, and the first `Finish` of a stream succeeds when
a terminal event was accepted before. -/
theorem sequence_validators_accept_iff [Semver] {invocationID rootTaskID traceID : String}
    {v : RuntimeResultStreamSequenceValidator}
    (hv : newRuntimeResultStreamSequenceValidator invocationID rootTaskID traceID = .ok v) :
    ((∀ es, AcceptsAll RuntimeInvocationSequenceValidator.acceptEvent .fresh es ↔
          (∀ e ∈ es, e.Schema ∧ e.Correlated) ∧ IsLifecycle es)
        ∧ ∀ (w : RuntimeInvocationSequenceValidator) e, (w.acceptEvent e).1 ≠ .ok () →
          (w.acceptEvent e).2 = w
            ∧ ∀ es, AcceptsAll RuntimeInvocationSequenceValidator.acceptEvent
              (w.acceptEvent e).2 es ↔
              AcceptsAll RuntimeInvocationSequenceValidator.acceptEvent w es)
      ∧ (∀ es, AcceptsAll RuntimeResultStreamSequenceValidator.acceptEvent v es ↔
          (∀ e ∈ es, validateInvocationResultStreamEventV2 e = .ok ())
            ∧ RuntimeResultStreamSequenceValidator.IsResultStream invocationID rootTaskID
              traceID es)
        ∧ (∀ (w : RuntimeResultStreamSequenceValidator) e, (w.acceptEvent e).1 ≠ .ok () →
          (w.acceptEvent e).2 = w)
        ∧ ∀ es, (leaves RuntimeResultStreamSequenceValidator.acceptEvent v es).finish.1 = .ok () ↔
          ∃ e ∈ taken RuntimeResultStreamSequenceValidator.acceptEvent v es,
            e.type.isTerminal = true := by
  obtain rfl := RuntimeResultStreamSequenceValidator.eq_after_of_new hv
  refine ⟨⟨fun es => ?_, fun w e h => ?_⟩,
    fun es => RuntimeResultStreamSequenceValidator.acceptsAll_acceptEvent_iff,
    fun w e => RuntimeResultStreamSequenceValidator.acceptEvent_snd_of_error,
    fun es => RuntimeResultStreamSequenceValidator.finish_leaves_ok_iff⟩
  · rw [RuntimeInvocationSequenceValidator.acceptsAll_acceptEvent_iff]
    simp only [validateInvocationEventV03_ok_iff]
    refine and_congr_right fun hvalid => ?_
    exact RuntimeInvocationSequenceValidator.admitsAll_fresh_iff fun e he => (hvalid e he).1.shape
  · rw [RuntimeInvocationSequenceValidator.acceptEvent_snd_of_error h]
    exact ⟨rfl, fun es => Iff.rfl⟩

/-- A result stream of one chunk. -/
def singleChunkStream : List InvocationResultStreamEventV2 :=
  [⟨"2", 0, .accepted, .pending, "inv-1", "task-1", "trace-1", none, [], none⟩,
    ⟨"2", 1, .chunk, .running, "inv-1", "task-1", "trace-1", some 0, Json.utf8 "1", none⟩,
    ⟨"2", 2, .completed, .succeeded, "inv-1", "task-1", "trace-1", none, [], none⟩]

theorem sequence_validators_accept_iff_singleChunkStream :
    newRuntimeResultStreamSequenceValidator "inv-1" "task-1" "trace-1" =
        .ok ⟨"inv-1", "task-1", "trace-1", 0, 0, false, false⟩
      ∧ AcceptsAll RuntimeResultStreamSequenceValidator.acceptEvent
        ⟨"inv-1", "task-1", "trace-1", 0, 0, false, false⟩ singleChunkStream := by
  have hnew : newRuntimeResultStreamSequenceValidator "inv-1" "task-1" "trace-1" =
      .ok ⟨"inv-1", "task-1", "trace-1", 0, 0, false, false⟩ := by decide +kernel
  refine ⟨hnew, ?_⟩
  refine ((@sequence_validators_accept_iff (.only []) _ _ _ _ hnew).2.1 singleChunkStream).mpr
    ⟨?_, by rfl, ?_, .finished 1 rfl, by rfl⟩
  · simp only [singleChunkStream, List.forall_mem_cons]
    exact ⟨by decide +kernel, by decide +kernel, by decide +kernel, List.forall_mem_nil _⟩
  · simp [singleChunkStream]

end Nekiro
