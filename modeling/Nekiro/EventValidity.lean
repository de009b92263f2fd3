import Nekiro.DispatchHandler

/-!
# When a dispatch's events are valid

Every lifecycle event a dispatch builds has the request's context, an
identifier made of a hash and its sequence number, and a time in Go's
spelling (`Built`). What the contract asks beyond the request's own
fields then comes down to the fields of the event's type: `Built.valid`.
-/

namespace Nekiro

namespace Dispatch

open Guard

/-! ## Identifiers -/

theorem isIdentifierTail_of_isLower {c : Char} (h : Hex.isLower c = true) :
    isIdentifierTail c = true := by
  simp only [Hex.isLower, Bool.or_eq_true, Bool.and_eq_true, decide_eq_true_eq] at h
  have hz : ('f' : Char) ≤ 'z' := by decide
  simp only [isIdentifierTail, isAlphanumeric, Bool.or_eq_true, Bool.and_eq_true,
    decide_eq_true_eq, beq_iff_eq]
  rcases h with h | h
  · exact .inl (.inl (.inl (.inl (.inr h))))
  · exact .inl (.inl (.inl (.inl (.inl (.inr ⟨h.1, le_trans h.2 hz⟩)))))

theorem repr_spec {n : Nat} (h : n < 10 ^ 30) :
    n.repr.toList.length ≤ 30 ∧ ∀ c ∈ n.repr.toList, isIdentifierTail c = true := by
  rw [Nat.toList_repr]
  refine ⟨Nat.toDigits_length 10 n 30 (by decide) h, fun c hc => ?_⟩
  have hdigit := Nat.isDigit_of_mem_toDigits (by decide) (by decide) hc
  refine isIdentifierTail_of_isLower ?_
  simp only [Char.isDigit, Bool.and_eq_true, decide_eq_true_eq] at hdigit
  simp only [Hex.isLower, Bool.or_eq_true, Bool.and_eq_true, decide_eq_true_eq]
  exact .inl hdigit

/-- The identifier of an event is one the contract takes. -/
theorem lifecycleEventID_safe (invocationID : String) {sequence : Int} (h0 : 0 ≤ sequence)
    (h1 : sequence < 10 ^ 30) (eventType : EventType) :
    safeIdentifier (lifecycleEventID invocationID sequence eventType) := by
  obtain ⟨n, rfl⟩ := Int.eq_ofNat_of_zero_le h0
  have hn : n < 10 ^ 30 := by exact_mod_cast h1
  obtain ⟨hrlen, hrall⟩ := repr_spec hn
  obtain ⟨hhlen, hhall⟩ := Hex.encodeChars_spec ((Sha256.sum (Json.utf8
    (invocationID ++ ":" ++ toString (n : Int) ++ ":" ++ eventType.text))).take 8)
  rw [List.length_take, Sha256.length_sum] at hhlen
  have hlist : (lifecycleEventID invocationID n eventType).toList = 'e' :: ('v' :: 't' :: '-'
      :: Hex.encodeChars ((Sha256.sum (Json.utf8
        (invocationID ++ ":" ++ toString (n : Int) ++ ":" ++ eventType.text))).take 8)
      ++ '-' :: n.repr.toList) := by
    simp only [lifecycleEventID, Hex.encode, String.toList_append, String.toList_ofList]
    simp [Int.toString_eq_repr, Int.repr_eq_if]
  rw [safeIdentifier_iff, Regex.matchText, safeIdentifierPattern, hlist, Regex.accepts_seq_chars]
  simp only [Bool.and_eq_true]
  refine ⟨by decide, (Regex.accepts_upTo_chars isIdentifierTail 127 _).mpr ⟨?_, ?_⟩⟩
  · simp only [List.length_append, List.length_cons, hhlen]
    omega
  · simp only [List.forall_mem_append, List.forall_mem_cons, List.cons_append]
    exact ⟨by decide, by decide, by decide,
      fun c hc => isIdentifierTail_of_isLower (hhall c hc), by decide, hrall⟩

/-! ## Built events -/

/-- The event is one of the request at a sequence number and a time. -/
structure Built (request : DispatchInvocationRequestV1) (sequence : Int) (time : Time)
    (e : InvocationEventV03) : Prop where
  context : e.toInvocationContext = request.toInvocationContext
  schemaVersion : e.schemaVersion = "0.3"
  eventID : e.eventID = lifecycleEventID request.invocationID sequence e.type
  sequence : e.sequence = sequence
  occurredAt : e.occurredAt = Rfc3339.format time

/-- The spelling of the time has four digits for the year. -/
def InEra (time : Time) : Prop := 0 ≤ time.utcYear ∧ time.utcYear ≤ 9999

section Valid

variable [Semver] {request : DispatchInvocationRequestV1} {sequence : Int} {time : Time}

theorem Built.valid_iff {e : InvocationEventV03} (h : Built request sequence time e)
    (hctx : request.toInvocationContext.Schema) (h0 : 0 ≤ sequence) (h1 : sequence < 10 ^ 30)
    (hera : InEra time) :
    validateInvocationEventV03 e = .ok () ↔
      nonNegative e.chunkIndex ∧ nonNegative e.chunkBytes ∧ nonNegative e.latencyMS
        ∧ (∀ err ∈ e.error, err.Schema) ∧ e.shape = true ∧ e.Correlated := by
  rw [validateInvocationEventV03_ok_iff]
  constructor
  · rintro ⟨hs, hc⟩
    exact ⟨hs.chunkIndex, hs.chunkBytes, hs.latencyMS, hs.error, hs.shape, hc⟩
  · rintro ⟨hindex, hbytes, hlatency, herror, hshape, hcorrelated⟩
    refine ⟨⟨h.schemaVersion, ?_, ?_, ?_, ?_, hindex, hbytes, hlatency, herror, hshape⟩,
      hcorrelated⟩
    · rw [h.eventID]
      exact lifecycleEventID_safe _ h0 h1 _
    · rw [h.sequence]
      exact h0
    · rw [h.occurredAt]
      exact Rfc3339.dateTime_format hera.1 hera.2
    · rw [h.context]
      exact hctx

/-- An event without an error and without a negative count is valid when
its shape is right. -/
theorem Built.valid_of_shape {e : InvocationEventV03} (h : Built request sequence time e)
    (hctx : request.toInvocationContext.Schema) (h0 : 0 ≤ sequence) (h1 : sequence < 10 ^ 30)
    (hera : InEra time) (hindex : nonNegative e.chunkIndex) (hbytes : nonNegative e.chunkBytes)
    (hlatency : nonNegative e.latencyMS) (herror : e.error = none) (hshape : e.shape = true) :
    validateInvocationEventV03 e = .ok () := by
  refine (h.valid_iff hctx h0 h1 hera).mpr ⟨hindex, hbytes, hlatency, ?_, hshape, ?_⟩
  · simp [herror]
  · simp [InvocationEventV03.Correlated, herror]

/-- A terminal event of its code's own type is valid when its latency is
not negative. -/
theorem validate_terminalEvent_iff (hreq : request.Traceable)
    (hctx : request.toInvocationContext.Schema) (h0 : 0 ≤ sequence) (h1 : sequence < 10 ^ 30)
    (hera : InEra time) {code : PlatformErrorCode} (hcode : code.known = true) {latency : Int} :
    validateInvocationEventV03 (terminalEvent request sequence (outcomeType code).1
      (outcomeType code).2 time latency code) = .ok () ↔ 0 ≤ latency := by
  have hbuilt : Built request sequence time (terminalEvent request sequence (outcomeType code).1
      (outcomeType code).2 time latency code) := ⟨rfl, rfl, rfl, rfl, rfl⟩
  rw [hbuilt.valid_iff hctx h0 h1 hera]
  constructor
  · rintro ⟨-, -, hlatency, -⟩
    exact hlatency latency rfl
  · intro hlatency
    refine ⟨nofun, nofun, ?_, ?_, ?_, ?_⟩
    · rintro i ⟨⟩
      exact hlatency
    · rintro err ⟨⟩
      exact hreq.platformError_schema hcode
    · cases code <;> rfl
    · rintro err ⟨⟩
      exact ⟨rfl, rfl, rfl⟩

end Valid

end Dispatch

end Nekiro
