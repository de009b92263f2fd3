import Mathlib.Data.UInt
import Nekiro.CatalogReachable

/-!
# Every run of the catalog services

Each service call keeps its part of the rule of `Interleaving`: what it
asks of the store is admitted in the state in which it asks
(`CatalogOp.keeps`). So every catalog that any interleaving of calls reaches
is sound (`CatalogPool.Reachable.sound`).

The services are taken apart with one lemma for each kind of query; what a
call has read stays true of rows that others change, up to what `Extends`
allows.
-/

namespace Nekiro

open Catalog CatalogWorld Fallible Json
open Strings (UnicodeCase)

section Queries

variable [CardFormats] {tick : Time → Time → Bool} {α β : Type}
  {post : Except CatalogError β → Program.Trace CatalogQuery.Answer → CatalogWorld → Prop}
  {trace : Program.Trace CatalogQuery.Answer} {w : CatalogWorld}

variable (tick) in
/-- The program does what the services guarantee. -/
abbrev Keeps
    (post : Except CatalogError β → Program.Trace CatalogQuery.Answer → CatalogWorld → Prop)
    (x : CatalogProgram β) (trace : Program.Trace CatalogQuery.Answer) (w : CatalogWorld) : Prop :=
  Program.Sat (CatalogQuery.respond tick) (Inv tick) (Extends tick)
    (fun _ q w a w' => Guarantee tick q w a w') post x.run trace w

theorem keeps_call {q : CatalogQuery} (hq : q.reads = true)
    {outcome : q.Answer → Except CatalogError α} {f : α → CatalogProgram β}
    (herr : ∀ err trace w, post (.error err) trace w)
    (h : ∀ w₁ e a b trace, Extends tick w w₁ → Inv tick w₁ →
      q.respond tick e w₁ = some (a, w₁) → outcome a = .ok b → Keeps tick post (f b) trace w₁) :
    Keeps tick post (call q outcome >>= f) trace w := by
  refine sat_call fun w₁ hw hinv e a w₂ hrespond => ⟨guarantee_of_reads hq hrespond, ?_⟩
  obtain rfl := respond_of_reads hq hrespond
  cases houtcome : outcome a with
  | error err => exact herr err _ _
  | ok b => exact h w₂ e a b _ hw hinv hrespond houtcome

/-- After a reading of the clock it is the last one. -/
theorem keeps_clock {f : Time → CatalogProgram β}
    (h : ∀ w₁ trace, Extends tick w w₁ → Inv tick w₁ → Keeps tick post (f w₁.now) trace w₁) :
    Keeps tick post (readClock >>= f) trace w := by
  refine sat_ask fun w₁ hw hinv e a w₂ hrespond => ?_
  have hguarantee : Guarantee tick .clock w₁ a w₂ := ⟨⟨e, hrespond⟩, by rintro _ ⟨⟩⟩
  obtain ⟨hextends, hinv₂⟩ := hguarantee.keeps hinv
  refine ⟨hguarantee, ?_⟩
  have hnow : a = w₂.now := by
    simp only [CatalogQuery.respond] at hrespond
    split_ifs at hrespond
    cases hrespond
    rfl
  rw [hnow]
  exact h w₂ _ (hw.trans _ _ _ hextends) hinv₂

/-- A store call that is admitted; what follows needs nothing. -/
theorem keeps_write {request : Call} {outcome : CatalogQuery.Answer (.write request) →
      Except CatalogError α} {f : α → CatalogProgram β}
    (herr : ∀ err trace w, post (.error err) trace w)
    (hadmits : ∀ w₁, Extends tick w w₁ → Inv tick w₁ →
      Admits w₁.catalog request ∧ (Forward tick → Stamped w₁ request))
    (h : ∀ b trace w, Keeps tick post (f b) trace w) :
    Keeps tick post (call (.write request) outcome >>= f) trace w := by
  refine sat_call fun w₁ hw hinv e a w₂ hrespond => ⟨⟨⟨e, hrespond⟩, ?_⟩, ?_⟩
  · rintro _ ⟨⟩
    exact hadmits w₁ hw hinv
  · cases houtcome : outcome a with
    | error err => exact herr err _ _
    | ok b => exact h b _ _

theorem keeps_attempt {request : Call} {f : CatalogQuery.Answer (.write request) → CatalogProgram β}
    (hadmits : ∀ w₁, Extends tick w w₁ → Inv tick w₁ →
      Admits w₁.catalog request ∧ (Forward tick → Stamped w₁ request))
    (h : ∀ a trace w, Keeps tick post (f a) trace w) :
    Keeps tick post (ask (.write request) >>= f) trace w := by
  refine sat_ask fun w₁ hw hinv e a w₂ hrespond => ⟨⟨⟨e, hrespond⟩, ?_⟩, h a _ _⟩
  rintro _ ⟨⟩
  exact hadmits w₁ hw hinv

theorem keeps_answer {q : CatalogQuery} (hq : q.reads = true) {f : q.Answer → CatalogProgram β}
    (h : ∀ a trace w, Keeps tick post (f a) trace w) :
    Keeps tick post (ask q >>= f) trace w :=
  sat_ask fun _ _ _ _ a _ hrespond => ⟨guarantee_of_reads hq hrespond, h a _ _⟩

end Queries

/-! ## What a read says -/

variable {s : Catalog} {providerID bindingID agentID releaseID : String} {b : EndpointBinding}
  {w' : CatalogWorld}

namespace Catalog

theorem getBinding_ok (h : s.getBinding providerID bindingID = .ok b) :
    b ∈ s.bindings ∧ b.providerID = providerID ∧ b.bindingID = bindingID := by
  simp only [getBinding] at h
  split at h
  · cases h
  · rename_i found hfound
    cases h
    exact ⟨List.mem_of_find?_eq_some hfound, by simpa using List.find?_some hfound⟩

theorem getProvider_ok {p : Provider} (h : s.getProvider providerID = .ok p) :
    p ∈ s.providers ∧ p.providerID = providerID := by
  simp only [getProvider] at h
  split at h
  · cases h
  · rename_i found hfound
    cases h
    exact ⟨List.mem_of_find?_eq_some hfound, by simpa using List.find?_some hfound⟩

theorem get_ok {version : String} {entry : AgentVersion} (h : s.get agentID version = .ok entry) :
    ∃ v ∈ s.versions, v.key = (agentID, version) ∧ entry.cardDigest = v.cardDigest
      ∧ AgentCard.decodeStored v.card = some entry.card := by
  obtain ⟨⟨found, ownerID⟩, hread, rfl⟩ := Guard.map_ok_iff.mp h
  obtain ⟨v, hv, hkey, hscan⟩ := readVersion_ok hread
  simp only [scanVersion, Option.bind_eq_bind, Option.bind_eq_some_iff] at hscan
  obtain ⟨identity, -, card, hcard, heq⟩ := hscan
  cases heq
  exact ⟨v, hv, hkey, rfl, hcard⟩

end Catalog

section Reads

variable [CardFormats] {tick : Time → Time → Bool} {β : Type}
  {post : Except CatalogError β → Program.Trace CatalogQuery.Answer → CatalogWorld → Prop}
  {trace : Program.Trace CatalogQuery.Answer} {w : CatalogWorld}
  (herr : ∀ err trace w, post (.error err) trace w)

include herr

theorem keeps_readProvider {f : Provider → CatalogProgram β}
    (h : ∀ w₁ p trace, Extends tick w w₁ → Inv tick w₁ → p ∈ w₁.catalog.providers →
      p.providerID = providerID → Keeps tick post (f p) trace w₁) :
    Keeps tick post (readProvider providerID >>= f) trace w := by
  refine keeps_call rfl herr fun w₁ e a p trace hw hinv hrespond hok => ?_
  cases hrespond
  obtain ⟨hp, hid⟩ := getProvider_ok hok
  exact h w₁ p trace hw hinv hp hid

theorem keeps_readBinding {f : EndpointBinding → CatalogProgram β}
    (h : ∀ w₁ b trace, Extends tick w w₁ → Inv tick w₁ → b ∈ w₁.catalog.bindings →
      b.providerID = providerID → b.bindingID = bindingID → Keeps tick post (f b) trace w₁) :
    Keeps tick post (readBinding providerID bindingID >>= f) trace w := by
  refine keeps_call rfl herr fun w₁ e a b trace hw hinv hrespond hok => ?_
  cases hrespond
  obtain ⟨hb, hprovider, hid⟩ := getBinding_ok hok
  exact h w₁ b trace hw hinv hb hprovider hid

theorem keeps_get {version : String} {f : AgentVersion → CatalogProgram β}
    (h : ∀ w₁ entry trace, Extends tick w w₁ → Inv tick w₁ →
      (∃ v ∈ w₁.catalog.versions, v.key = (agentID, version) ∧ entry.cardDigest = v.cardDigest) →
      Keeps tick post (f entry) trace w₁) :
    Keeps tick post (call (.get agentID version) id >>= f) trace w := by
  refine keeps_call rfl herr fun w₁ e a entry trace hw hinv hrespond hok => ?_
  cases hrespond
  obtain ⟨v, hv, hkey, hdigest, -⟩ := get_ok hok
  exact h w₁ entry trace hw hinv ⟨v, hv, hkey, hdigest⟩

theorem keeps_getRelease {f : AgentRelease → CatalogProgram β}
    (h : ∀ w₁ r trace, Extends tick w w₁ → Inv tick w₁ → r ∈ w₁.catalog.releases →
      r.releaseID = releaseID → Keeps tick post (f r) trace w₁) :
    Keeps tick post (call (.getRelease releaseID) id >>= f) trace w := by
  refine keeps_call rfl herr fun w₁ e a r trace hw hinv hrespond hok => ?_
  cases hrespond
  obtain ⟨hr, hid⟩ := getRelease_ok hok
  exact h w₁ r trace hw hinv hr hid

end Reads

/-! ## The services -/

section Services

variable [CardFormats] {tick : Time → Time → Bool}
  {trace : Program.Trace CatalogQuery.Answer} {w : CatalogWorld}

/-- The result of a service call is not looked at. -/
def Any : Except CatalogError CatalogResponse → Program.Trace CatalogQuery.Answer →
    CatalogWorld → Prop := fun _ _ _ => True

theorem Service.keeps_register (caller : String) (requestJSON : Bytes) :
    Keeps tick Any (Service.register caller requestJSON) trace w := by
  unfold Service.register
  split
  · trivial
  · rename_i card hcard
    refine sat_require (fun _ => trivial) fun _ => ?_
    split
    · trivial
    · rename_i cardJSON hmarshal
      refine keeps_call rfl (fun _ _ _ => trivial) fun _ _ _ publicAgentID _ _ _ _ _ => ?_
      refine sat_require (fun _ => trivial) fun _ => ?_
      refine keeps_clock fun _ _ _ _ => ?_
      refine keeps_write (fun _ _ _ => trivial) (fun _ _ _ => ⟨?_, fun _ => trivial⟩)
        fun _ _ _ => trivial
      exact ⟨⟨requestJSON, hcard⟩, hmarshal, rfl, rfl⟩

theorem Service.keeps_publish [Semver] (caller agentID version : String) :
    Keeps tick Any (Service.publish caller agentID version) trace w :=
  sat_require (fun _ => trivial) fun _ => keeps_clock fun _ _ _ _ =>
    keeps_write (fun _ _ _ => trivial) (fun _ _ _ => ⟨trivial, fun _ => trivial⟩)
      fun _ _ _ => trivial

theorem Service.keeps_disable [Semver] (caller agentID version : String) :
    Keeps tick Any (Service.disable caller agentID version) trace w :=
  sat_require (fun _ => trivial) fun _ => keeps_clock fun _ _ _ _ =>
    keeps_write (fun _ _ _ => trivial) (fun _ _ _ => ⟨trivial, fun _ => trivial⟩)
      fun _ _ _ => trivial

theorem TrustService.keeps_createBinding [UnicodeCase] [Semver]
    (caller providerID agentID version endpoint method : String) :
    Keeps tick Any
      (TrustService.createBinding caller providerID agentID version endpoint method) trace w := by
  refine sat_require (fun _ => trivial) fun _ => ?_
  split
  · trivial
  · refine keeps_call rfl (fun _ _ _ => trivial) fun _ _ _ _ _ _ _ _ _ => ?_
    split
    · trivial
    · refine sat_require (fun _ => trivial) fun _ => ?_
      refine keeps_clock fun _ _ _ _ => ?_
      refine keeps_call rfl (fun _ _ _ => trivial) fun _ _ _ _ _ _ _ _ _ => ?_
      exact keeps_write (fun _ _ _ => trivial)
        (fun _ _ _ => ⟨⟨rfl, rfl, rfl, rfl, rfl, rfl⟩, fun _ => trivial⟩) fun _ _ _ => trivial

/-- Authorizing a caller asks and writes nothing. -/
theorem TrustService.keeps_authorizeProvider {β : Type}
    {post : Except CatalogError β → Program.Trace CatalogQuery.Answer → CatalogWorld → Prop}
    (herr : ∀ err trace w, post (.error err) trace w) {caller : String}
    {f : Unit → CatalogProgram β} (h : ∀ trace w, Keeps tick post (f ()) trace w) :
    Keeps tick post (TrustService.authorizeProvider caller providerID >>= f) trace w := by
  refine sat_bind.mpr (keeps_call rfl (fun err trace w => herr err trace w) ?_)
  intro _ _ _ _ _ _ _ _ _
  refine sat_require (fun _ => herr _ _ _) fun _ => ?_
  exact sat_require_last (fun _ => herr _ _ _) fun _ => h _ _

theorem TrustService.keeps_createChallenge (config : TrustConfig)
    (caller providerID bindingID : String) :
    Keeps tick Any (TrustService.createChallenge config caller providerID bindingID) trace w := by
  refine sat_require (fun _ => trivial) fun _ => ?_
  refine TrustService.keeps_authorizeProvider (fun _ _ _ => trivial) fun _ _ => ?_
  refine keeps_call rfl (fun _ _ _ => trivial) fun _ _ _ _ _ _ _ _ _ => ?_
  refine sat_require (fun _ => trivial) fun _ => ?_
  refine keeps_clock fun _ _ _ _ => ?_
  refine keeps_call rfl (fun _ _ _ => trivial) fun _ _ _ _ _ _ _ _ _ => ?_
  refine keeps_call rfl (fun _ _ _ => trivial) fun _ _ _ _ _ _ _ _ _ => ?_
  exact keeps_write (fun _ _ _ => trivial) (fun _ _ _ => ⟨trivial, fun _ => trivial⟩)
    fun _ _ _ => trivial

/-- A failure is recorded with its code and without a digest. -/
theorem TrustService.keeps_recordFailure {cause : CatalogError} {β : Type}
    {post : Except CatalogError β → Program.Trace CatalogQuery.Answer → CatalogWorld → Prop}
    {f : CatalogError → CatalogProgram β} (h : ∀ err trace w, Keeps tick post (f err) trace w) :
    Keeps tick post (TrustService.recordFailure bindingID cause >>= f) trace w := by
  refine sat_bind.mpr ?_
  unfold TrustService.recordFailure
  split
  · exact h _ _ _
  · refine keeps_clock fun _ _ _ _ => ?_
    refine keeps_attempt (fun _ _ _ => ⟨.inr ⟨rfl, by simp, rfl⟩, fun _ => trivial⟩) ?_
    intro _ _ _
    split <;> exact h _ _ _

theorem TrustService.keeps_failVerification (bindingID : String) (cause : CatalogError) :
    Keeps tick Any (TrustService.failVerification bindingID cause) trace w :=
  TrustService.keeps_recordFailure fun _ _ _ => trivial

theorem TrustService.keeps_failUnlessExpired (bindingID : String) (expiresAt : Time)
    (cause : CatalogError) :
    Keeps tick Any (TrustService.failUnlessExpired bindingID expiresAt cause) trace w := by
  refine keeps_clock fun _ _ _ _ => ?_
  split_ifs
  · exact TrustService.keeps_failVerification _ _
  · exact TrustService.keeps_failVerification _ _

theorem TrustService.keeps_verify [UnicodeCase] (config : TrustConfig)
    (bindingID challengeID : String) (endpoint : Endpoint) (challenge : VerificationChallenge) :
    Keeps tick Any (TrustService.verify config bindingID challengeID endpoint challenge)
      trace w := by
  refine keeps_clock fun _ _ _ _ => ?_
  refine keeps_answer rfl fun _ _ _ => ?_
  split
  · exact TrustService.keeps_failUnlessExpired _ _ _
  · exact TrustService.keeps_failUnlessExpired _ _ _
  · refine keeps_answer rfl fun _ _ _ => ?_
    split
    · exact TrustService.keeps_failUnlessExpired _ _ _
    · refine keeps_clock fun _ _ _ _ => ?_
      split_ifs
      · exact TrustService.keeps_failVerification _ _
      · exact TrustService.keeps_failVerification _ _
      · refine keeps_clock fun _ _ _ _ => ?_
        exact keeps_write (fun _ _ _ => trivial)
          (fun _ _ _ => ⟨.inl ⟨rfl, rfl, by simp⟩, fun _ => trivial⟩) fun _ _ _ => trivial

theorem TrustService.keeps_completeChallenge [UnicodeCase] (config : TrustConfig)
    (caller providerID bindingID challengeID : String) :
    Keeps tick Any
      (TrustService.completeChallenge config caller providerID bindingID challengeID) trace w := by
  refine sat_require (fun _ => trivial) fun _ => ?_
  refine TrustService.keeps_authorizeProvider (fun _ _ _ => trivial) fun _ _ => ?_
  refine keeps_call rfl (fun _ _ _ => trivial) fun _ _ _ _ _ _ _ _ _ => ?_
  refine sat_require (fun _ => trivial) fun _ => ?_
  split
  · trivial
  · refine keeps_clock fun _ _ _ _ => ?_
    refine keeps_attempt (fun _ _ _ => ⟨trivial, fun _ => trivial⟩) fun _ _ _ => ?_
    split
    · exact TrustService.keeps_verify _ _ _ _ _
    · refine TrustService.keeps_recordFailure fun err _ _ => ?_
      split_ifs <;> trivial
    · trivial

end Services

/-! ## Releases -/

section Facts

variable {tick : Time → Time → Bool}

theorem CatalogWorld.Extends.binding {w : CatalogWorld} (h : Extends tick w w')
    (hb : ∃ b' ∈ w.catalog.bindings, BindingKept b b') :
    ∃ b' ∈ w'.catalog.bindings, BindingKept b b' := by
  obtain ⟨b₁, hb₁, hkept₁⟩ := hb
  obtain ⟨b₂, hb₂, hkept₂⟩ := h.catalog.trust.bindings b₁ hb₁
  exact ⟨b₂, hb₂, hkept₁.trans _ _ _ hkept₂⟩

theorem CatalogWorld.Extends.release {w : CatalogWorld} (h : Extends tick w w')
    (hr : ∃ r ∈ w.catalog.releases, r.releaseID = releaseID) :
    ∃ r ∈ w'.catalog.releases, r.releaseID = releaseID := by
  obtain ⟨r, hr, rfl⟩ := hr
  obtain ⟨r', hr', hfacts⟩ := h.catalog.releases r hr
  exact ⟨r', hr', by rw [hfacts]⟩

/-- A pending binding has no evidence. -/
theorem evidence_of_pending (h : b.Checks) (hpending : b.verificationStatus = .pending) :
    b.evidence = none := by
  rcases h.stateTimestamps with ⟨-, h, -⟩ | ⟨h, -⟩ | ⟨h, -⟩ | ⟨h, -⟩
  · exact h
  all_goals exact absurd (hpending.symm.trans h) (by simp)

/-- A release created for the binding `b` as it was read; the row has kept
its facts since, and all of itself if it was verified. -/
theorem releaseFits_of_read {b' : EndpointBinding} (hb' : b' ∈ s.bindings)
    (hkept : BindingKept b b') (hchecks : b.Checks)
    (hstatus : b.verificationStatus = .pending ∨ b.verificationStatus = .verified)
    {version : String} (hversion : b.agentID = agentID ∧ b.agentCardVersion = version)
    {digest : Digest} (hv : ∃ v ∈ s.versions, v.key = (agentID, version) ∧ v.cardDigest = digest)
    (releaseID : String) (now : Time) :
    ReleaseFits s
      ⟨⟨releaseID, b.providerID, agentID, version, digest, b.bindingID, b.origin, b.path,
        b.verificationMethod, now⟩, b.evidence,
        if b.verificationStatus = .verified then .verified else .pendingVerification, now,
        if b.verificationStatus = .verified then b.verifiedAt else none, none, none, none⟩ := by
  refine ⟨hv, ⟨b', hb', ?_, ?_, ?_, ?_, ?_, ?_, ?_⟩, ⟨rfl, rfl, rfl⟩, rfl⟩
  · rw [hkept.facts]
  · rw [hkept.facts]
  · rw [hkept.facts, hversion.1, hversion.2]
    rfl
  · rw [hkept.facts]
  · rw [hkept.facts]
  · rw [hkept.facts]
  · rcases hstatus with hpending | hverified
    · have hne : b.verificationStatus ≠ .verified := by simp [hpending]
      exact .inr ⟨if_neg hne, evidence_of_pending hchecks hpending, if_neg hne⟩
    · rw [hkept.verified hverified]
      exact .inl ⟨if_pos hverified, hverified, rfl, if_pos hverified⟩

theorem CatalogWorld.Extends.version {w : CatalogWorld} (h : Extends tick w w')
    {key : String × String} {digest : Digest}
    (hv : ∃ v ∈ w.catalog.versions, v.key = key ∧ v.cardDigest = digest) :
    ∃ v ∈ w'.catalog.versions, v.key = key ∧ v.cardDigest = digest := by
  obtain ⟨v, hv, hkey, hdigest⟩ := hv
  obtain ⟨v', hv', hkept⟩ := h.catalog.versions v hv
  exact ⟨v', hv', hkept.key.trans hkey, hkept.cardDigest.trans hdigest⟩

end Facts

section Releases

variable [CardFormats] {tick : Time → Time → Bool}
  {trace : Program.Trace CatalogQuery.Answer} {w : CatalogWorld}

theorem ReleaseService.keeps_createRelease [Semver]
    (caller providerID agentID version bindingID : String) :
    Keeps tick Any
      (ReleaseService.createRelease caller providerID agentID version bindingID) trace w := by
  refine sat_require (fun _ => trivial) fun _ => ?_
  refine sat_bind.mpr ?_
  refine keeps_readProvider (fun _ _ _ => trivial) fun w₁ p _ _ _ _ hp => ?_
  refine sat_require (fun _ => trivial) fun _ => ?_
  refine sat_require (fun _ => trivial) fun _ => ?_
  refine keeps_readBinding (fun _ _ _ => trivial) fun w₂ b _ _ hinv₂ hb hprovider hid => ?_
  refine sat_require (fun _ => trivial) fun hversion => ?_
  refine keeps_get (fun _ _ _ => trivial) fun w₃ entry _ hw₃ _ hv => ?_
  refine sat_require (fun _ => trivial) fun hstatus => ?_
  refine keeps_clock fun w₄ _ hw₄ _ => ?_
  refine keeps_call rfl (fun _ _ _ => trivial) fun w₅ _ _ bytes _ hw₅ _ _ _ => ?_
  refine keeps_write (fun _ _ _ => trivial) (fun w₆ hw₆ _ => ?_) fun _ _ _ => trivial
  -- the binding was read at `w₂`, the version at `w₃`, the clock at `w₄`
  have hw : Extends tick w₄ w₆ := hw₅.trans _ _ _ hw₆
  obtain ⟨b', hb', hkept⟩ := (hw₃.trans _ _ _ (hw₄.trans _ _ _ hw)).binding ⟨b, hb, .refl b⟩
  rw [hp, ← hprovider]
  exact ⟨releaseFits_of_read hb' hkept (hinv₂.sound.trust.bindings b hb) hstatus hversion
    ((hw₄.trans _ _ _ hw).version (hv.imp fun _ h => ⟨h.1, h.2.1, h.2.2.symm⟩)) _ _,
    fun hf => hw.now hf⟩

/-- A transition is stamped with a time that is not before its release was
created: the release had been read when the clock was. -/
theorem ReleaseService.keeps_transitionRelease {target : ReleaseState} {evidence : Option Digest}
    (hr : ∃ r ∈ w.catalog.releases, r.releaseID = releaseID)
    (hevidence : target = .verified → evidence ≠ none) :
    Keeps tick Any (ReleaseService.transitionRelease releaseID target evidence) trace w := by
  refine keeps_clock fun w₁ _ hw₁ hinv₁ => ?_
  refine keeps_write (fun _ _ _ => trivial) (fun w₂ hw₂ hinv₂ => ⟨hevidence, ?_⟩)
    fun _ _ _ => trivial
  intro hf r₂ hr₂ hid
  obtain ⟨r₁, hr₁, hid₁⟩ := hw₁.release hr
  obtain ⟨r, hr, hfacts⟩ := hw₂.catalog.releases r₁ hr₁
  obtain rfl := hinv₂.sound.lifecycle.releases.eq_of_releaseID hr₂ hr
    (hid.trans (hid₁.symm.trans (by rw [hfacts])))
  rw [hfacts]
  exact hinv₁.stamped hf r₁ hr₁

section Parts

variable {β : Type}
  {post : Except CatalogError β → Program.Trace CatalogQuery.Answer → CatalogWorld → Prop}
  (herr : ∀ err trace w, post (.error err) trace w)

include herr

theorem ReleaseService.keeps_authorizeRelease {caller : String}
    {f : AgentRelease → CatalogProgram β}
    (h : ∀ r trace w₁, (∃ r ∈ w₁.catalog.releases, r.releaseID = releaseID) →
      Keeps tick post (f r) trace w₁) :
    Keeps tick post (ReleaseService.authorizeRelease caller releaseID >>= f) trace w := by
  rw [Keeps, sat_bind]
  refine sat_require (fun _ => herr _ _ _) fun _ => ?_
  refine keeps_getRelease ?_ fun w₁ r _ _ _ hr hid => ?_
  · exact herr
  refine keeps_readProvider ?_ fun w₂ _ _ hw₂ _ _ _ => ?_
  · exact herr
  exact sat_require (fun _ => herr _ _ _) fun _ => h r _ _ (hw₂.release ⟨r, hr, hid⟩)

theorem ReleaseService.keeps_requireCurrentVerifiedBinding {release : AgentRelease}
    {f : Unit → CatalogProgram β}
    (h : ∀ trace w₁, Extends tick w w₁ → Keeps tick post (f ()) trace w₁) :
    Keeps tick post (ReleaseService.requireCurrentVerifiedBinding release >>= f) trace w := by
  rw [Keeps, sat_bind]
  refine keeps_readProvider ?_ fun w₁ _ _ hw₁ _ _ _ => ?_
  · exact herr
  refine sat_require (fun _ => herr _ _ _) fun _ => ?_
  refine keeps_readBinding ?_ fun w₂ _ _ hw₂ _ _ _ _ => ?_
  · exact herr
  refine sat_require (fun _ => herr _ _ _) fun _ => ?_
  exact sat_require_last (fun _ => herr _ _ _) fun _ => h _ _ (hw₁.trans _ _ _ hw₂)

end Parts

theorem ReleaseService.keeps_verifyRelease (caller releaseID : String) :
    Keeps tick Any (ReleaseService.verifyRelease caller releaseID) trace w := by
  refine ReleaseService.keeps_authorizeRelease (fun _ _ _ => trivial) fun _ _ w₁ hr => ?_
  refine sat_require (fun _ => trivial) fun _ => ?_
  refine ReleaseService.keeps_requireCurrentVerifiedBinding (fun _ _ _ => trivial) ?_
  intro _ w₂ hw₂
  refine keeps_readBinding (fun _ _ _ => trivial) fun w₃ b _ hw₃ _ _ _ _ => ?_
  refine sat_require (fun _ => trivial) fun hevidence => ?_
  exact ReleaseService.keeps_transitionRelease (hw₃.release (hw₂.release hr)) fun _ => hevidence

theorem ReleaseService.keeps_publishRelease (caller releaseID : String) :
    Keeps tick Any (ReleaseService.publishRelease caller releaseID) trace w := by
  refine ReleaseService.keeps_authorizeRelease (fun _ _ _ => trivial) fun _ _ w₁ hr => ?_
  refine sat_require (fun _ => trivial) fun _ => ?_
  refine ReleaseService.keeps_requireCurrentVerifiedBinding (fun _ _ _ => trivial) ?_
  intro _ w₂ hw₂
  exact ReleaseService.keeps_transitionRelease (hw₂.release hr) (by simp)

theorem ReleaseService.keeps_suspendRelease (caller releaseID : String) :
    Keeps tick Any (ReleaseService.suspendRelease caller releaseID) trace w := by
  refine ReleaseService.keeps_authorizeRelease (fun _ _ _ => trivial) fun _ _ w₁ hr => ?_
  refine sat_require (fun _ => trivial) fun _ => ?_
  exact ReleaseService.keeps_transitionRelease hr (by simp)

theorem ReleaseService.keeps_revokeRelease (caller releaseID : String) :
    Keeps tick Any (ReleaseService.revokeRelease caller releaseID) trace w := by
  refine ReleaseService.keeps_authorizeRelease (fun _ _ _ => trivial) fun _ _ w₁ hr => ?_
  refine sat_require (fun _ => trivial) fun _ => ?_
  exact ReleaseService.keeps_transitionRelease hr (by simp)

end Releases

/-! ## Runs -/

section Runs

variable [UnicodeCase] [Semver] [CardFormats] {tick : Time → Time → Bool} {config : TrustConfig}

/-- Every call keeps its part of the rule. -/
theorem CatalogOp.keeps (op : CatalogOp) (trace : Program.Trace CatalogQuery.Answer)
    (w : CatalogWorld) : Keeps tick Any (op.program config) trace w := by
  cases op with
  | register caller requestJSON => exact Service.keeps_register _ _
  | publish caller agentID version => exact Service.keeps_publish _ _ _
  | disable caller agentID version => exact Service.keeps_disable _ _ _
  | createBinding caller providerID agentID version endpoint method =>
      exact TrustService.keeps_createBinding _ _ _ _ _ _
  | createChallenge caller providerID bindingID =>
      exact TrustService.keeps_createChallenge _ _ _ _
  | completeChallenge caller providerID bindingID challengeID =>
      exact TrustService.keeps_completeChallenge _ _ _ _ _
  | createRelease caller providerID agentID version bindingID =>
      exact ReleaseService.keeps_createRelease _ _ _ _ _
  | verifyRelease caller releaseID => exact ReleaseService.keeps_verifyRelease _ _
  | publishRelease caller releaseID => exact ReleaseService.keeps_publishRelease _ _
  | suspendRelease caller releaseID => exact ReleaseService.keeps_suspendRelease _ _
  | revokeRelease caller releaseID => exact ReleaseService.keeps_revokeRelease _ _

variable (tick config) in
/-- The pool is reached from a catalog that the migrations leave, by some
interleaving of service calls. -/
def CatalogPool.Reachable (p : CatalogPool) : Prop :=
  ∃ s now moves, Migrated s ∧ CatalogPool.run tick config ⟨⟨s, now⟩, []⟩ moves = some p

/-- Every interleaving keeps the store sound and each call to its guarantee. -/
theorem CatalogPool.Reachable.ok {p : CatalogPool} (h : p.Reachable tick config) :
    p.Ok (CatalogQuery.respond tick) (Inv tick) (Extends tick)
      (fun _ _ q w a w' => Guarantee tick q w a w') := by
  obtain ⟨s, now, moves, hs, hrun⟩ := h
  refine (Pool.run_sat Extends.refl Extends.trans (fun hinv hg => hg.keeps hinv)
    (fun op w _ => op.keeps [] w) ⟨⟨hs.sound, ?_⟩, by simp⟩ moves hrun).1
  simp [hs.untrusted.1]

theorem CatalogPool.Reachable.sound {p : CatalogPool} (h : p.Reachable tick config) :
    Sound p.state.catalog := h.ok.state.sound

/-- The moves of calls that are made one after the other, each with the
surroundings that it meets and the number of its queries. -/
def CatalogOp.inTurn (first : Nat) (calls : List (CatalogOp × Surroundings × Nat)) :
    List (Move CatalogOp Surroundings) :=
  (calls.zipIdx first).flatMap fun ((op, e, n), k) =>
    .start op :: List.replicate n (.answer k e)

end Runs

/-! ## An agent that is published -/

namespace Weather

def card : AgentCard where
  schemaVersion := "0.2"
  agentID := "weather"
  name := "Weather"
  description := "Forecasts"
  owner := ⟨"acme", "Acme"⟩
  version := "1.0.0"
  protocol := ⟨"a2a", "0.3.0", "JSONRPC", "https://w.example"⟩
  skills := some [⟨"forecast", "Forecast", "A forecast", some [], some [], some []⟩]
  authentication := ⟨"none"⟩
  permissions := some []
  limits := ⟨1000, utf8 "1024", utf8 "1024", false⟩

def publicAgentID : String := "agt_00000000000000000000000000000000"

def trustID (kind : String) : String := kind ++ "-00000000000000000000000000000000"

/-- Generators that give zeros, and an agent that answers with its
proof. -/
def surroundings (clock : Time) : Surroundings where
  clock := clock
  publicAgentID := some publicAgentID
  id := some (zeros 16)
  proof := some (zeros 32)
  addresses := some [[8, 8, 8, 8]]
  exchange := .response 200 (some (List.replicate 64 0x30)) true

/-- The calls up to a release that is verified. -/
def verified (clock : Time) : List (Move CatalogOp Surroundings) :=
  CatalogOp.inTurn 0
    [(.register "acme" (utf8 "\x7b\"card\":" ++ card.marshal.getD [] ++ utf8 "\x7d"),
        surroundings clock, 3),
      (.createBinding "acme" "acme" "weather" "1.0.0" "https://w.example"
        verificationMethodHTTPWellKnown, surroundings clock, 4),
      (.createChallenge "acme" "acme" (trustID "binding"), surroundings clock, 6),
      (.completeChallenge "acme" "acme" (trustID "binding") (trustID "challenge"),
        surroundings clock, 10),
      (.createRelease "acme" "acme" "weather" "1.0.0" (trustID "binding"), surroundings clock, 6)]

def published (clock : Time) : List (Move CatalogOp Surroundings) :=
  CatalogOp.inTurn 5 [(.publishRelease "acme" (trustID "release"), surroundings clock, 6)]

/-- A machine with any clock, and the agent on it. -/
def pool (moves : List (Move CatalogOp Surroundings)) : Option CatalogPool :=
  let _ : UnicodeCase := ⟨id⟩
  let _ : CardFormats := ⟨fun _ => true, fun _ => true⟩
  let _ : Semver := .only ["1.0.0"]
  CatalogPool.run (fun _ _ => true) ⟨newEndpointPolicy [], 600000000000⟩ ⟨⟨.empty, 0⟩, []⟩ moves

end Weather

end Nekiro
