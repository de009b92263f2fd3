import Nekiro.Table
import Nekiro.WorkspaceStore

/-!
# The lifecycle of installations

What a committed call of the workspace store can do is said once, by
`Changed`: it adds a workspace, adds an installation, or moves one
installation to its next status. From that come the invariant of the
tables (`Tables`), what becomes of a row in one call (`Evolves`) and in
many (`run_persists`).
-/

namespace Nekiro

open Guard WorkspaceTables

namespace Workspaces

/-! ## Time -/

theorem lt_nextLifecycleTime (previous candidate : Time) :
    previous < nextLifecycleTime previous candidate := by
  have hInt : ∀ p c : Int, p < if p - p % 1000 < c - c % 1000 then c - c % 1000
      else p - p % 1000 + 1000 := by
    intro p c
    split_ifs with h <;> omega
  exact hInt previous candidate

/-! ## The tables -/

/-- The keys and constraints that the database keeps. -/
structure Tables (s : Workspaces) : Prop where
  workspaceIDs : (s.workspaces.map Workspace.workspaceID).Nodup
  workspaceChecks : ∀ w ∈ s.workspaces, WorkspaceChecks w
  installationIDs : (s.installations.map fun r => r.installationID).Nodup
  currentAgents : (currentAgents s.installations).Nodup
  checks : ∀ r ∈ s.installations, r.Checks

theorem tables_empty : Tables empty where
  workspaceIDs := List.nodup_nil
  workspaceChecks := by simp [empty]
  installationIDs := List.nodup_nil
  currentAgents := List.nodup_nil
  checks := by simp [empty]

variable {s s' : Workspaces} {r r' before after : InstallationRow} {call : Call}
  {rows : List InstallationRow}

/-- The primary key names the row. -/
theorem Tables.eq_of_installationID (h : s.Tables) (hr : r ∈ s.installations)
    (hr' : r' ∈ s.installations) (hid : r.installationID = r'.installationID) : r = r' :=
  Table.eq_of_key h.installationIDs hr hr' hid

/-! ## What a call does -/

/-- One row and what a status change makes of it. -/
structure Moves (r r' : InstallationRow) : Prop where
  pin : r'.toPin = r.toPin
  status : r.status = .enabled ∧ r'.status = .disabled
    ∨ r.status = .disabled ∧ (r'.status = .enabled ∨ r'.status = .uninstalled)
  later : r.updatedAt < r'.updatedAt

/-- The table after `before` has been moved. -/
def moved (rows : List InstallationRow) (before after : InstallationRow) : List InstallationRow :=
  Table.update (fun r => r.installationID) before.installationID (fun _ => after) rows

inductive Changed (s : Workspaces) : Call → Workspaces → Prop
  | workspace {value row : Workspace} (hchecks : WorkspaceChecks row)
      (hfresh : ∀ w ∈ s.workspaces, w.workspaceID ≠ row.workspaceID) :
      Changed s (.createWorkspace value) { s with workspaces := s.workspaces ++ [row] }
  | installation {callerID : String} {value : Installation} {row : InstallationRow}
      (hrow : insertedRow value = some row) (hchecks : row.Checks) (hfree : s.keysFree row) :
      Changed s (.createInstallation callerID value)
        { s with installations := s.installations ++ [row] }
  | status {call : Call} {before after : InstallationRow} (hbefore : before ∈ s.installations)
      (hmoves : Moves before after) (hchecks : after.Checks)
      (hcurrent : (WorkspaceTables.currentAgents (moved s.installations before after)).Nodup) :
      Changed s call { s with installations := moved s.installations before after }

theorem createWorkspace_changed {value : Workspace} (h : s.createWorkspace value = .ok s') :
    Changed s (.createWorkspace value) s' := by
  simp only [createWorkspace, check_bind_ok_iff, require_ok_iff] at h
  obtain ⟨hchecks, hfresh, heq⟩ := h
  cases heq
  exact .workspace hchecks hfresh

theorem createInstallation_ok {callerID : String} {value : Installation} {row : InstallationRow}
    (h : s.createInstallation callerID value = .ok (row, s')) :
    insertedRow value = some row ∧ row.Checks ∧ s.keysFree row
      ∧ s' = { s with installations := s.installations ++ [row] } := by
  simp only [createInstallation] at h
  obtain ⟨w, -, h⟩ := bind_ok_iff.mp h
  simp only [check_bind_ok_iff, require_ok_iff] at h
  obtain ⟨-, -, h⟩ := h
  split at h
  · cases h
  · rename_i inserted hrow
    simp only [check_bind_ok_iff, require_ok_iff] at h
    obtain ⟨hchecks, hfree, heq⟩ := h
    cases heq
    exact ⟨hrow, hchecks, hfree, rfl⟩

theorem findInstallation_ok {condition : InstallationRow → Bool}
    (h : s.findInstallation condition = .ok r) : r ∈ s.installations ∧ condition r = true := by
  simp only [findInstallation] at h
  split at h
  · rename_i found hfound
    cases h
    exact ⟨List.mem_of_find?_eq_some hfound, List.find?_some hfound⟩
  · cases h

/-- By the primary key, the `UPDATE` touches the row that was read. -/
theorem map_named_eq_moved (ht : s.Tables) (hbefore : before ∈ s.installations)
    (set : InstallationRow → InstallationRow) :
    (s.installations.map fun r =>
      if named before.workspaceID before.installationID r then set r else r) =
      moved s.installations before (set before) := by
  refine List.map_congr_left fun r hr => ?_
  by_cases hid : r.installationID = before.installationID
  · obtain rfl := ht.eq_of_installationID hr hbefore hid
    simp [named]
  · simp [named, hid]

theorem transition_changed (ht : s.Tables) {operation : String}
    {set : InstallationRow → InstallationRow} (hbefore : before ∈ s.installations)
    (hmoves : Moves before (set before)) (h : s.transition before operation set = .ok (after, s')) :
    Changed s call s' := by
  simp only [transition, check_bind_ok_iff] at h
  obtain ⟨s₁, hupdate, heq⟩ := bind_ok_iff.mp h.2
  cases heq
  simp only [updateInstallation, check_bind_ok_iff, require_ok_iff, map_named_eq_moved ht hbefore]
    at hupdate
  obtain ⟨hchecks, hcurrent, heq⟩ := hupdate
  cases heq
  exact .status hbefore hmoves (hchecks before hbefore (by simp [named])) hcurrent

theorem changeInstallationStatus_changed (ht : s.Tables)
    {workspaceID installationID status : String} {clock : Time}
    (h : s.changeInstallationStatus workspaceID installationID status clock = .ok (after, s')) :
    Changed s call s' := by
  simp only [changeInstallationStatus] at h
  obtain ⟨before, hread, h⟩ := bind_ok_iff.mp h
  have hbefore := (findInstallation_ok hread).1
  rw [check_bind_ok_iff] at h
  have h := h.2
  split at h
  · rename_i hstatus _
    exact transition_changed ht hbefore
      ⟨rfl, .inl ⟨hstatus, rfl⟩, lt_nextLifecycleTime _ _⟩ h
  · rename_i hstatus _
    exact transition_changed ht hbefore
      ⟨rfl, .inr ⟨hstatus, .inl rfl⟩, lt_nextLifecycleTime _ _⟩ h
  · cases h

theorem uninstallInstallation_changed (ht : s.Tables) {workspaceID installationID : String}
    {clock : Time}
    (h : s.uninstallInstallation workspaceID installationID clock = .ok (after, s')) :
    Changed s call s' := by
  simp only [uninstallInstallation] at h
  obtain ⟨before, hread, h⟩ := bind_ok_iff.mp h
  have hbefore := (findInstallation_ok hread).1
  rw [check_bind_ok_iff, require_ok_iff] at h
  exact transition_changed ht hbefore
    ⟨rfl, .inr ⟨h.1, .inr rfl⟩, lt_nextLifecycleTime _ _⟩ h.2

theorem map_snd_ok {α : Type} {x : Except WorkspaceError (α × Workspaces)}
    (h : Prod.snd <$> x = .ok s') : ∃ a, x = .ok (a, s') := by
  cases x with
  | error e => cases h
  | ok p =>
      cases h
      exact ⟨p.1, rfl⟩

theorem step_changed (ht : s.Tables) (h : s.step call = .ok s') : Changed s call s' := by
  cases call with
  | createWorkspace value => exact createWorkspace_changed h
  | createInstallation callerID value =>
      obtain ⟨row, h⟩ := map_snd_ok h
      obtain ⟨hrow, hchecks, hfree, rfl⟩ := createInstallation_ok h
      exact .installation hrow hchecks hfree
  | changeInstallationStatus workspaceID installationID status clock =>
      obtain ⟨row, h⟩ := map_snd_ok h
      exact changeInstallationStatus_changed ht h
  | uninstallInstallation workspaceID installationID clock =>
      obtain ⟨row, h⟩ := map_snd_ok h
      exact uninstallInstallation_changed ht h

/-! ## The invariant -/

theorem mem_moved (h : r ∈ moved rows before after) : r ∈ rows ∨ r = after := by
  rcases Table.mem_update h with h | ⟨_, -, -, h⟩
  · exact .inl h
  · exact .inr h

theorem installationIDs_moved (hpin : after.toPin = before.toPin) :
    ((moved rows before after).map fun r => r.installationID) =
      rows.map fun r => r.installationID :=
  Table.map_update _ fun _ _ hid => (congrArg Pin.installationID hpin).trans hid.symm

theorem Changed.tables (h : Changed s call s') (ht : s.Tables) : s'.Tables := by
  cases h with
  | workspace hchecks hfresh =>
      exact { ht with
        workspaceIDs := Table.nodup_concat ht.workspaceIDs hfresh
        workspaceChecks := Table.forall_concat ht.workspaceChecks hchecks }
  | installation _ hchecks hfree =>
      exact { ht with
        installationIDs := Table.nodup_concat ht.installationIDs hfree.1
        currentAgents := hfree.2
        checks := Table.forall_concat ht.checks hchecks }
  | status hbefore hmoves hchecks hcurrent =>
      refine { ht with installationIDs := ?_, currentAgents := hcurrent, checks := ?_ }
      · rw [installationIDs_moved hmoves.pin]
        exact ht.installationIDs
      · intro r hr
        rcases mem_moved hr with hr | rfl
        · exact ht.checks r hr
        · exact hchecks

theorem run_tables (ht : s.Tables) (calls : List Call) : (s.run calls).Tables :=
  Transact.run_induction (fun _ _ _ ht hstep => (step_changed ht hstep).tables ht) ht calls

/-! ## What becomes of a row -/

/-- The row after one call: as it was, or moved to its next status. -/
def Evolves (r r' : InstallationRow) : Prop := r' = r ∨ Moves r r'

theorem Evolves.pin (h : Evolves r r') : r'.toPin = r.toPin := by
  rcases h with rfl | h
  · rfl
  · exact h.pin

theorem Evolves.eq_of_uninstalled (h : Evolves r r') (hr : r.status = .uninstalled) : r' = r := by
  rcases h with h | h
  · exact h
  · rcases h.status with ⟨hs, -⟩ | ⟨hs, -⟩
    · exact absurd (hs.symm.trans hr) (by decide)
    · exact absurd (hs.symm.trans hr) (by decide)

theorem Changed.evolves (h : Changed s call s') (ht : s.Tables) (hr : r ∈ s.installations) :
    ∃ r' ∈ s'.installations, Evolves r r' := by
  cases h with
  | workspace => exact ⟨r, hr, .inl rfl⟩
  | installation => exact ⟨r, List.mem_append_left _ hr, .inl rfl⟩
  | @status call before after hbefore hmoves =>
      by_cases hid : r.installationID = before.installationID
      · obtain rfl := ht.eq_of_installationID hr hbefore hid
        exact ⟨after, Table.mem_update_of_eq hr rfl, .inr hmoves⟩
      · exact ⟨r, Table.mem_update_of_ne hr hid, .inl rfl⟩

/-- A call, committed or refused, and a row that was there. -/
theorem commit_evolves (ht : s.Tables) (call : Call) (hr : r ∈ s.installations) :
    ∃ r' ∈ (s.run [call]).installations, Evolves r r' := by
  rcases Transact.commit_cases step s call with h | h
  · exact ⟨r, by rw [run, Transact.run, List.foldl_cons, List.foldl_nil, h]; exact hr, .inl rfl⟩
  · exact (step_changed ht h).evolves ht hr

/-- A row keeps its pin for ever, and an uninstalled one everything. -/
theorem run_persists (ht : s.Tables) (calls : List Call) (hr : r ∈ s.installations) :
    ∃ r' ∈ (s.run calls).installations, r'.toPin = r.toPin
      ∧ (r.status = .uninstalled → r' = r) := by
  refine (Transact.run_induction
    (P := fun s' : Workspaces => s'.Tables ∧ ∃ r' ∈ s'.installations, r'.toPin = r.toPin
      ∧ (r.status = .uninstalled → r' = r)) ?_ ⟨ht, r, hr, rfl, fun _ => rfl⟩ calls).2
  rintro s₁ call s₂ ⟨ht₁, r₁, hr₁, hpin, hsame⟩ hstep
  have hchanged := step_changed ht₁ hstep
  obtain ⟨r₂, hr₂, hevolves⟩ := hchanged.evolves ht₁ hr₁
  refine ⟨hchanged.tables ht₁, r₂, hr₂, hevolves.pin.trans hpin, fun hr => ?_⟩
  obtain rfl := hsame hr
  exact hevolves.eq_of_uninstalled hr

/-- At most one installation of an agent is not uninstalled. -/
theorem Tables.current_le_one (ht : s.Tables) (workspaceID agentID : String) :
    (s.installations.filter fun r =>
      r.workspaceID = workspaceID ∧ r.agentID = agentID ∧ r.status ≠ .uninstalled).length ≤ 1 := by
  have hcount := List.nodup_iff_count_le_one.mp ht.currentAgents (workspaceID, agentID)
  rw [WorkspaceTables.currentAgents, List.count, List.countP_map, List.countP_filter,
    List.countP_eq_length_filter] at hcount
  refine le_of_eq_of_le (congrArg List.length (List.filter_congr fun r _ => ?_)) hcount
  rw [Bool.eq_iff_iff]
  simp [and_assoc]

/-! ## Workspaces persist -/

theorem run_workspaces (ht : s.Tables) (calls : List Call) {w : Workspace} (hw : w ∈ s.workspaces) :
    w ∈ (s.run calls).workspaces := by
  refine (Transact.run_induction (P := fun s' : Workspaces => s'.Tables ∧ w ∈ s'.workspaces)
    ?_ ⟨ht, hw⟩ calls).2
  rintro s₁ call s₂ ⟨ht₁, hw₁⟩ hstep
  have hchanged := step_changed ht₁ hstep
  refine ⟨hchanged.tables ht₁, ?_⟩
  cases hchanged with
  | workspace => exact List.mem_append_left _ hw₁
  | installation => exact hw₁
  | status => exact hw₁

theorem Tables.getWorkspace_eq (ht : s.Tables) {w : Workspace} (hw : w ∈ s.workspaces) :
    s.getWorkspace w.workspaceID = .ok w := by
  have hfound : s.workspaces.find? (fun w' => w'.workspaceID = w.workspaceID) = some w :=
    (Table.find?_eq_some_iff ht.workspaceIDs).mpr ⟨hw, rfl⟩
  rw [getWorkspace, hfound]

end Workspaces

end Nekiro
