import Callio.Concurrency.Course
import Callio.Core.CallErasure
import Callio.Store.Between

/-! What is left of a customer once their data is erased, however often the request is interrupted
and made again. -/

namespace Callio.CallErasure

open Js Store Concurrency Concurrency.Fallible
open Retention (Recording Detail storedKey)

/-! ## On the way -/

/-- Each row and each object is as it was or as it is to be. -/
structure World.Between (w goal w' : World) : Prop where
  calls : Table.Between w.calls goal.calls w'.calls
  recordings : Table.Between w.recordings goal.recordings w'.recordings
  deliveries : Table.Between w.deliveries goal.deliveries w'.deliveries
  detail : ∀ table, Table.Between (w.detail table) (goal.detail table) (w'.detail table)
  objects : ∀ key, w'.objects key = w.objects key ∨ w'.objects key = goal.objects key

theorem World.Between.refl (w goal : World) : World.Between w goal w :=
  ⟨.refl _ _, .refl _ _, .refl _ _, fun _ => .refl _ _, fun _ => .inl rfl⟩

theorem World.Between.trans {w w' w'' goal : World} (h : World.Between w goal w')
    (h' : World.Between w' goal w'') : World.Between w goal w'' where
  calls := h.calls.trans h'.calls
  recordings := h.recordings.trans h'.recordings
  deliveries := h.deliveries.trans h'.deliveries
  detail table := (h.detail table).trans (h'.detail table)
  objects key := (h'.objects key).elim (fun heq => (h.objects key).imp heq.trans heq.trans) .inr

/-! ## A customer's data -/

section erased

variable (env : Env) (tenantId : Nat) (address : Text)

/-- The row is of an ended call of the customer. -/
def World.erasable (w : World) (callId : Nat) : Bool :=
  (w.calls.get callId).any (·.erasable env tenantId address)

def World.erasableCalls (w : World) : List (Nat × Call) :=
  w.calls.entries fun _ call => call.erasable env tenantId address

def World.erasableRecordings (w : World) : List (Nat × Recording) :=
  w.recordings.entries fun _ row => w.erasable env tenantId address row.callId

def World.activeCalls (w : World) : List Call :=
  w.calls.filter fun _ call => call.tenantId = tenantId && call.of env address && !ended call.status

/-- What is left of the rows of a table; transfers and participants say nothing of the customer. -/
def World.erasedRows (w : World) (rows : Table Detail) : CallTable → Table Detail
  | .callLifecycleEvents | .ivrSessions => rows.removeAll fun _ row => w.erasable env tenantId address row.callId
  | .callConnections => rows.updateAll (fun _ row => w.erasable env tenantId address row.callId) scrubbed
  | .callTransferLogs | .callParticipants => rows

/-- The world without what it had of the customer's ended calls. -/
def World.erased (w : World) : World where
  calls := w.calls.updateAll (fun _ call => call.erasable env tenantId address) Call.anonymised
  recordings := w.recordings.removeAll fun _ row => w.erasable env tenantId address row.callId
  deliveries := w.deliveries.removeAll fun _ callId => callId.any (w.erasable env tenantId address)
  detail table := w.erasedRows env tenantId address (w.detail table) table
  objects key := w.objects key &&
    !w.recordings.any fun _ row => w.erasable env tenantId address row.callId && storedKey row = some key

/-- To a world without them. -/
def erasing : Course World := ⟨World.erased env tenantId address, World.Between, .refl, .trans⟩

end erased

section steps

variable {env : Env} {tenantId : Nat} {address : Text} {w : World}

@[simp] theorem erasable_anonymised (call : Call) : call.anonymised.erasable env tenantId address = false := by
  simp [Call.erasable, Call.of, Call.anonymised]

theorem World.detail_setDetail_self (table : CallTable) (rows : Table Detail) :
    (w.setDetail table rows).detail table = rows := Function.update_self _ _ _

theorem World.detail_setDetail_of_ne {t table : CallTable} (ht : t ≠ table) (rows : Table Detail) :
    (w.setDetail table rows).detail t = w.detail t := Function.update_of_ne ht _ _

theorem erased_objects_of_stored {id : Nat} {row : Recording} {key : Text} (hrow : w.recordings.get id = some row)
    (herasable : w.erasable env tenantId address row.callId = true) (hkey : storedKey row = some key) :
    (w.erased env tenantId address).objects key = false := by
  have hany : (w.recordings.any fun _ row => w.erasable env tenantId address row.callId && storedKey row = some key) =
      true := (Table.any_eq_true _ _).mpr ⟨id, row, hrow, by simp [herasable, hkey]⟩
  simp [World.erased, hany]

theorem partway_of {w' : World} (hbetween : World.Between w (w.erased env tenantId address) w')
    (hsame : w'.erased env tenantId address = w.erased env tenantId address) :
    (erasing env tenantId address).Partway w w' := ⟨hbetween, hsame⟩

/-- An object of the customer's is deleted. -/
theorem partway_objects {id : Nat} {row : Recording} {key : Text} (hrow : w.recordings.get id = some row)
    (herasable : w.erasable env tenantId address row.callId = true) (hkey : storedKey row = some key) :
    (erasing env tenantId address).Partway w { w with objects := fun k => k ≠ key && w.objects k } := by
  have hgone := erased_objects_of_stored hrow herasable hkey
  refine partway_of ?_ ?_
  · refine ⟨.refl _ _, .refl _ _, .refl _ _, fun _ => .refl _ _, fun k => ?_⟩
    by_cases hk : k = key
    · subst hk
      exact .inr (by simp [hgone])
    · exact .inl (by simp [hk])
  · refine World.ext rfl rfl rfl rfl (funext fun k => ?_)
    by_cases hk : k = key
    · subst hk
      rw [hgone]
      simp [World.erased]
    · simp [World.erased, World.erasable, hk]

/-- Rows of recordings are deleted whose objects are gone. -/
theorem partway_recordings {p : Nat → Recording → Bool}
    (h : ∀ id row, w.recordings.get id = some row → p id row = true →
      w.erasable env tenantId address row.callId = true ∧ ∀ key, storedKey row = some key → w.objects key = false) :
    (erasing env tenantId address).Partway w { w with recordings := w.recordings.removeAll p } := by
  have herasable : ∀ id row, w.recordings.get id = some row → p id row = true →
      w.erasable env tenantId address row.callId = true := fun id row hrow hp => (h id row hrow hp).1
  refine partway_of ?_ ?_
  · exact ⟨.refl _ _, Table.between_removeAll herasable, .refl _ _, fun _ => .refl _ _, fun _ => .inl rfl⟩
  · refine World.ext rfl (Table.removeAll_removeAll herasable) rfl rfl (funext fun key => ?_)
    show (w.objects key && _) = (w.objects key && _)
    cases hobject : w.objects key with
    | false => rfl
    | true =>
      refine congrArg (true && !·) (Bool.eq_iff_iff.mpr ?_)
      rw [Table.any_eq_true, Table.any_eq_true]
      constructor
      · rintro ⟨id, row, hrow, hp⟩
        rw [Table.get_removeAll, Option.filter_eq_some_iff] at hrow
        exact ⟨id, row, hrow.1, hp⟩
      · rintro ⟨id, row, hrow, hp⟩
        refine ⟨id, row, ?_, hp⟩
        rw [Table.get_removeAll, Option.filter_eq_some_iff]
        refine ⟨hrow, Bool.not_eq_true' _ |>.mpr (Bool.eq_false_iff.mpr fun hremoved => ?_)⟩
        rw [Bool.and_eq_true, decide_eq_true_iff] at hp
        rw [(h id row hrow hremoved).2 key hp.2] at hobject
        cases hobject

theorem partway_deliveries {p : Nat → Option Nat → Bool}
    (h : ∀ id callId, w.deliveries.get id = some callId → p id callId = true →
      callId.any (w.erasable env tenantId address) = true) :
    (erasing env tenantId address).Partway w { w with deliveries := w.deliveries.removeAll p } :=
  ⟨⟨.refl _ _, .refl _ _, Table.between_removeAll h, fun _ => .refl _ _, fun _ => .inl rfl⟩,
    World.ext rfl rfl (Table.removeAll_removeAll h) rfl rfl⟩

theorem partway_setDetail {table : CallTable} {rows : Table Detail}
    (hbetween : Table.Between (w.detail table) (w.erasedRows env tenantId address (w.detail table) table) rows)
    (hsame : w.erasedRows env tenantId address rows table = w.erasedRows env tenantId address (w.detail table) table) :
    (erasing env tenantId address).Partway w (w.setDetail table rows) := by
  refine partway_of ?_ ?_
  · refine ⟨.refl _ _, .refl _ _, .refl _ _, fun t => ?_, fun _ => .inl rfl⟩
    by_cases ht : t = table
    · subst ht
      rw [World.detail_setDetail_self]
      exact hbetween
    · rw [World.detail_setDetail_of_ne ht]
      exact .refl _ _
  · refine World.ext rfl rfl rfl (funext fun t => ?_) rfl
    show w.erasedRows env tenantId address ((w.setDetail table rows).detail t) t = _
    by_cases ht : t = table
    · subst ht
      rw [World.detail_setDetail_self]
      exact hsame
    · rw [World.detail_setDetail_of_ne ht]
      rfl

section detail

variable {callIds : List Nat} (h : ∀ callId ∈ callIds, w.erasable env tenantId address callId = true)
include h

theorem erasable_of_mem {rows : Table Detail} (id : Nat) (row : Detail) (_ : rows.get id = some row)
    (hmem : decide (row.callId ∈ callIds) = true) : w.erasable env tenantId address row.callId = true :=
  h _ (decide_eq_true_iff.mp hmem)

theorem partway_lifecycle : (erasing env tenantId address).Partway w (w.setDetail .callLifecycleEvents
    ((w.detail .callLifecycleEvents).removeAll fun _ row => row.callId ∈ callIds)) :=
  partway_setDetail (Table.between_removeAll (erasable_of_mem h)) (Table.removeAll_removeAll (erasable_of_mem h))

theorem partway_ivrSessions : (erasing env tenantId address).Partway w (w.setDetail .ivrSessions
    ((w.detail .ivrSessions).removeAll fun _ row => row.callId ∈ callIds)) :=
  partway_setDetail (Table.between_removeAll (erasable_of_mem h)) (Table.removeAll_removeAll (erasable_of_mem h))

theorem partway_scrub : (erasing env tenantId address).Partway w (w.setDetail .callConnections
    ((w.detail .callConnections).updateAll (fun _ row => row.callId ∈ callIds) scrubbed)) :=
  partway_setDetail (Table.between_updateAll (erasable_of_mem h))
    (Table.updateAll_updateAll (erasable_of_mem h) fun _ => rfl)

end detail

/-! ### The calls' own rows come last -/

/-- Nothing else is left of the calls. -/
structure Cleared (w : World) (callIds : List Nat) : Prop where
  recordings : ∀ id row, w.recordings.get id = some row → row.callId ∉ callIds
  deliveries : ∀ id callId, w.deliveries.get id = some callId → about callIds callId = false
  lifecycle : ∀ id row, (w.detail .callLifecycleEvents).get id = some row → row.callId ∉ callIds
  ivrSessions : ∀ id row, (w.detail .ivrSessions).get id = some row → row.callId ∉ callIds
  connections : ∀ id row, (w.detail .callConnections).get id = some row → row.callId ∈ callIds → scrubbed row = row

/-- `WHERE tenant_id = ? AND id IN (…) AND status IN (…)`. -/
def matched (tenantId : Nat) (callIds : List Nat) (id : Nat) (call : Call) : Bool :=
  call.tenantId = tenantId && id ∈ callIds && ended call.status

def World.anonymised (w : World) (tenantId : Nat) (callIds : List Nat) : World :=
  { w with calls := w.calls.updateAll (matched tenantId callIds) Call.anonymised }

theorem erasable_of_get {callId : Nat} {call : Call} (hcall : w.calls.get callId = some call) :
    w.erasable env tenantId address callId = call.erasable env tenantId address := by
  rw [World.erasable, hcall, Option.any_some]

theorem matched_of_erasable {callIds : List Nat} {id : Nat} {call : Call}
    (herasable : call.erasable env tenantId address = true) :
    matched tenantId callIds id call = decide (id ∈ callIds) := by
  simp only [Call.erasable, Bool.and_eq_true] at herasable
  simp [matched, decide_eq_true_iff.mp herasable.1.1, herasable.2]

theorem erasable_anonymised_of_not_mem {callIds : List Nat} {callId : Nat} (hmem : callId ∉ callIds) :
    (w.anonymised tenantId callIds).erasable env tenantId address callId = w.erasable env tenantId address callId := by
  rw [World.erasable, World.anonymised, Table.get_updateAll, World.erasable]
  cases w.calls.get callId with
  | none => rfl
  | some call => simp [matched, hmem]

theorem partway_anonymised {callIds : List Nat} (h : ∀ callId ∈ callIds, w.erasable env tenantId address callId = true)
    (hcleared : Cleared w callIds) :
    (erasing env tenantId address).Partway w (w.anonymised tenantId callIds) := by
  have hcalls : ∀ id call, w.calls.get id = some call → matched tenantId callIds id call = true →
      call.erasable env tenantId address = true := by
    intro id call hcall hmatched
    simp only [matched, Bool.and_eq_true, decide_eq_true_iff] at hmatched
    rw [← erasable_of_get hcall]
    exact h id hmatched.1.2
  have hother : ∀ {callId}, callId ∉ callIds →
      (w.anonymised tenantId callIds).erasable env tenantId address callId = w.erasable env tenantId address callId :=
    erasable_anonymised_of_not_mem
  refine partway_of ?_ ?_
  · exact ⟨Table.between_updateAll hcalls, .refl _ _, .refl _ _, fun _ => .refl _ _, fun _ => .inl rfl⟩
  · refine World.ext (Table.updateAll_updateAll hcalls fun _ => rfl) ?_ ?_ (funext fun table => ?_)
      (funext fun key => ?_)
    · exact Table.removeAll_congr fun id row hrow => hother (hcleared.recordings id row hrow)
    · refine Table.removeAll_congr fun id callId hrow => ?_
      have habout := hcleared.deliveries id callId hrow
      cases callId with
      | none => rfl
      | some callId => exact hother (of_decide_eq_false habout)
    · cases table with
      | callLifecycleEvents => exact Table.removeAll_congr fun id row hrow => hother (hcleared.lifecycle id row hrow)
      | ivrSessions => exact Table.removeAll_congr fun id row hrow => hother (hcleared.ivrSessions id row hrow)
      | callConnections =>
        refine Table.updateAll_congr fun id row hrow => ?_
        by_cases hmem : row.callId ∈ callIds
        · exact .inr (hcleared.connections id row hrow hmem)
        · exact .inl (hother hmem)
      | callTransferLogs => rfl
      | callParticipants => rfl
    · refine congrArg (w.objects key && !·) (Table.any_congr fun id row hrow => ?_)
      rw [hother (hcleared.recordings id row hrow)]

end steps

/-! ## Requests -/

theorem select_heads {α : Type} {c : Course World} {w : Faulty World} {f : World → α} :
    c.Heads (select f) w fun a w' => a = f w.state ∧ w' = w.state := .command (.refl c _)

section files

variable {env : Env} {c : Course World}

def World.withoutObject (w : World) (key : Text) : World := { w with objects := fun k => k ≠ key && w.objects k }

theorem deleteFile_ends {w : Faulty World} {key : Text} (h : c.Partway w.state (w.state.withoutObject key)) :
    (deleteFile key).Ends w (fun ok w' => c.Advances w w' ∧
      (ok = true ∧ w'.state = w.state.withoutObject key ∨ ok = false ∧ w'.state = w.state ∧ true ∈ w.faults))
      fun _ => False := by
  refine ends_tried.mpr ((ends_command _).mpr ⟨fun hfault => ?_, fun _ => ?_⟩)
  · exact ⟨⟨.refl _ _, List.tail_suffix _⟩, .inr ⟨rfl, rfl, Course.mem_of_headD hfault⟩⟩
  · exact ⟨⟨h, List.tail_suffix _⟩, .inl ⟨rfl, rfl⟩⟩

/-- Objects are gone, and nothing else is. -/
def World.Without (w w' : World) : Prop :=
  ∃ objects, w' = { w with objects } ∧ ∀ key, objects key = true → w.objects key = true

theorem deleteFiles_heads {w : Faulty World} {keys : List Text}
    (h : ∀ key ∈ keys, ∀ w', w.state.Without w' → c.Partway w' (w'.withoutObject key)) :
    c.Heads (deleteFiles keys) w fun error w' => w.state.Without w' ∧
      match error with
      | none => ∀ key ∈ keys, w'.objects key = false
      | some error => error.code = .storageUnavailable ∧ true ∈ w.faults := by
  induction keys generalizing w with
  | nil => exact .pure ⟨⟨_, rfl, fun _ h => h⟩, nofun⟩
  | cons key keys ih =>
    rw [List.forall_mem_cons] at h
    refine (ends_bind _).mpr (Ends.mono (deleteFile_ends (h.1 w.state ⟨_, rfl, fun _ h => h⟩)) ?_ fun _ => False.elim)
    rintro ok w' ⟨hruns, ⟨rfl, hstate⟩ | ⟨rfl, hstate, hfault⟩⟩
    · have hwithout : ∀ w'', w'.state.Without w'' → w.state.Without w'' := by
        rintro w'' ⟨objects, rfl, hobjects⟩
        rw [hstate] at hobjects ⊢
        exact ⟨objects, rfl, fun k hk => (Bool.and_eq_true_iff.mp (hobjects k hk)).2⟩
      refine Ends.mono (ih fun key hkey w'' hw'' => h.2 key hkey w'' (hwithout w'' hw'')) ?_ fun w'' hw'' => ?_
      · rintro error w'' ⟨hruns', hw'', herror⟩
        refine ⟨hruns.trans hruns', hwithout _ hw'', ?_⟩
        cases error with
        | none =>
          refine List.forall_mem_cons.mpr ⟨?_, herror⟩
          obtain ⟨objects, heq, hobjects⟩ := hw''
          rw [heq, Bool.eq_false_iff]
          intro hkey
          have := hobjects key hkey
          rw [hstate] at this
          simp [World.withoutObject] at this
        | some error => exact ⟨herror.1, hruns.failed herror.2⟩
      · exact ⟨hruns.trans hw''.1, hruns.failed hw''.2⟩
    · exact ⟨hruns, ⟨_, hstate, fun _ h => h⟩, rfl, hfault⟩

/-- Why the files of recordings are not all deleted. -/
def Refused (env : Env) (recordings : List Recording) (faults : List Bool) (error : ErasureError) : Prop :=
  error.code = .recordingInProgress ∧ (∃ row ∈ recordings, unsettled row.status = true) ∨
    error.code = .storageUnavailable ∧ (env.isInitialized = false ∨ true ∈ faults)

theorem deleteRecordingFiles_heads {w : Faulty World} {recordings : List Recording}
    (h : ∀ row ∈ recordings, ∀ key, storedKey row = some key →
      ∀ w', w.state.Without w' → c.Partway w' (w'.withoutObject key)) :
    c.Heads (deleteRecordingFiles env recordings) w fun error w' => w.state.Without w' ∧
      match error with
      | none => ∀ row ∈ recordings, ∀ key, storedKey row = some key → w'.objects key = false
      | some error => Refused env recordings w.faults error := by
  unfold deleteRecordingFiles
  split
  · rename_i hunsettled
    exact .pure ⟨⟨_, rfl, fun _ h => h⟩, .inl ⟨rfl, List.any_eq_true.mp hunsettled⟩⟩
  · dsimp only
    split
    · rename_i hstorage
      rw [Bool.and_eq_true, Bool.not_eq_true'] at hstorage
      exact .pure ⟨⟨_, rfl, fun _ h => h⟩, .inr ⟨rfl, .inl (Bool.not_eq_true' _ |>.mp hstorage.2)⟩⟩
    · refine (deleteFiles_heads fun key hkey => ?_).mono fun error w' hw' => ⟨hw'.1, ?_⟩
      · obtain ⟨row, hrow, hstored⟩ := List.mem_filterMap.mp hkey
        exact h row hrow key hstored
      · cases error with
        | none => exact fun row hrow key hkey => hw'.2 key (List.mem_filterMap.mpr ⟨row, hrow, hkey⟩)
        | some error => exact .inr ⟨hw'.2.1, .inr hw'.2.2⟩

end files

section batches

variable {env : Env} {tenantId : Nat} {address : Text} {w : Faulty World} {callIds : List Nat}

theorem recordingsOf_heads {c : Course World} (hne : callIds ≠ []) :
    c.Heads (recordingsOf callIds) w fun rows w' =>
      w' = w.state ∧ rows = w.state.recordings.entries fun _ row => row.callId ∈ callIds := by
  rw [recordingsOf, if_neg (by simpa using hne)]
  exact select_heads.mono fun _ _ h => ⟨h.2, h.1⟩

/-- The rows of the batch's recordings are deleted, by their ids. -/
theorem deleteRecordingRows_heads (h : ∀ callId ∈ callIds, w.state.erasable env tenantId address callId = true)
    (hgone : ∀ id row, w.state.recordings.get id = some row → row.callId ∈ callIds →
      ∀ key, storedKey row = some key → w.state.objects key = false) :
    (erasing env tenantId address).Heads
      (deleteRecordingRows ((w.state.recordings.entries fun _ row => row.callId ∈ callIds).map Prod.fst)) w fun n w' =>
        n = (w.state.recordings.entries fun _ row => row.callId ∈ callIds).length ∧
          w' = { w.state with recordings := w.state.recordings.removeAll fun _ row => row.callId ∈ callIds } := by
  have hid : ∀ id row, w.state.recordings.get id = some row →
      decide (id ∈ (w.state.recordings.entries fun _ row => row.callId ∈ callIds).map Prod.fst) =
        decide (row.callId ∈ callIds) := by
    intro id row hrow
    refine decide_eq_decide.mpr ⟨fun hmem => ?_, fun hmem => ?_⟩
    · obtain ⟨⟨id', row'⟩, hentry, rfl⟩ := List.mem_map.mp hmem
      obtain ⟨hrow', hmem'⟩ := Table.mem_entries.mp hentry
      rw [hrow] at hrow'
      cases hrow'
      exact decide_eq_true_iff.mp hmem'
    · exact List.mem_map.mpr ⟨(id, row), Table.mem_entries.mpr ⟨hrow, decide_eq_true hmem⟩, rfl⟩
  have hremoved := Table.removeAll_congr hid
  have hentries := Table.entries_congr hid
  unfold deleteRecordingRows
  split
  · rename_i hempty
    have hnone : (w.state.recordings.entries fun _ row => row.callId ∈ callIds) = [] := by simpa using hempty
    refine .pure ⟨by rw [hnone]; rfl, ?_⟩
    rw [Table.removeAll_of_none fun id row hrow => ?_]
    refine decide_eq_false fun hmem => List.not_mem_nil (a := (id, row)) ?_
    rw [← hnone]
    exact Table.mem_entries.mpr ⟨hrow, decide_eq_true hmem⟩
  · refine (Course.Heads.command (partway_recordings fun id row hrow hmem => ?_)).mono fun n w' hw' => ?_
    · rw [hid id row hrow, decide_eq_true_iff] at hmem
      exact ⟨h _ hmem, hgone id row hrow hmem⟩
    · exact ⟨hw'.1.trans (congrArg List.length hentries), hw'.2.trans (by rw [hremoved])⟩

theorem deleteDeliveries_heads (hne : callIds ≠ [])
    (h : ∀ callId ∈ callIds, w.state.erasable env tenantId address callId = true) :
    (erasing env tenantId address).Heads (deleteDeliveries callIds) w fun _ w' =>
      w' = { w.state with deliveries := w.state.deliveries.removeAll fun _ => about callIds } := by
  rw [deleteDeliveries, if_neg (by simpa using hne)]
  refine (Course.Heads.command (partway_deliveries fun _ callId _ habout => ?_)).mono fun _ _ hw' => hw'.2
  cases callId with
  | none => cases habout
  | some callId => exact h callId (decide_eq_true_iff.mp habout)

/-- The world without the batch's details. -/
def World.withoutDetail (w : World) (callIds : List Nat) : World :=
  ((w.setDetail .callLifecycleEvents
    ((w.detail .callLifecycleEvents).removeAll fun _ row => row.callId ∈ callIds)).setDetail
    .ivrSessions ((w.detail .ivrSessions).removeAll fun _ row => row.callId ∈ callIds)).setDetail
      .callConnections ((w.detail .callConnections).updateAll (fun _ row => row.callId ∈ callIds) scrubbed)

theorem cleared_withoutDetail {w : World}
    (hrecordings : ∀ id row, w.recordings.get id = some row → row.callId ∉ callIds)
    (hdeliveries : ∀ id callId, w.deliveries.get id = some callId → about callIds callId = false) :
    Cleared (w.withoutDetail callIds) callIds where
  recordings := hrecordings
  deliveries := hdeliveries
  lifecycle id row hrow := by
    replace hrow :
      ((w.detail .callLifecycleEvents).removeAll fun _ row => row.callId ∈ callIds).get id = some row := hrow
    rw [Table.get_removeAll, Option.filter_eq_some_iff] at hrow
    simpa using hrow.2
  ivrSessions id row hrow := by
    replace hrow : ((w.detail .ivrSessions).removeAll fun _ row => row.callId ∈ callIds).get id = some row := hrow
    rw [Table.get_removeAll, Option.filter_eq_some_iff] at hrow
    simpa using hrow.2
  connections id row hrow hmem := by
    replace hrow :
      ((w.detail .callConnections).updateAll (fun _ row => row.callId ∈ callIds) scrubbed).get id = some row := hrow
    rw [Table.get_updateAll, Option.map_eq_some_iff] at hrow
    obtain ⟨row, -, rfl⟩ := hrow
    by_cases hin : row.callId ∈ callIds
    · simp only [hin, decide_true, if_true]
      rfl
    · simp only [hin, decide_false, Bool.false_eq_true, if_false] at hmem

theorem anonymise_heads (hne : callIds ≠ [])
    (h : ∀ callId ∈ callIds, w.state.erasable env tenantId address callId = true)
    (hrecordings : ∀ id row, w.state.recordings.get id = some row → row.callId ∉ callIds)
    (hdeliveries : ∀ id callId, w.state.deliveries.get id = some callId → about callIds callId = false) :
    (erasing env tenantId address).Heads (anonymise tenantId callIds) w fun n w' =>
      n = (w.state.calls.entries (matched tenantId callIds)).length ∧
        w' = (w.state.withoutDetail callIds).anonymised tenantId callIds := by
  rw [anonymise, if_neg (by simpa using hne)]
  refine (Course.Heads.command (partway_lifecycle h)).bind fun _ w₁ _ hw₁ => ?_
  have h₁ : ∀ callId ∈ callIds, w₁.state.erasable env tenantId address callId = true := by
    rw [hw₁.2]
    exact h
  refine (Course.Heads.command (partway_ivrSessions h₁)).bind fun _ w₂ _ hw₂ => ?_
  have h₂ : ∀ callId ∈ callIds, w₂.state.erasable env tenantId address callId = true := by
    rw [hw₂.2]
    exact h₁
  refine (Course.Heads.command (partway_scrub h₂)).bind fun _ w₃ _ hw₃ => ?_
  have hw : w₃.state = w.state.withoutDetail callIds := by
    rw [hw₃.2, hw₂.2, hw₁.2]
    rfl
  have h₃ : ∀ callId ∈ callIds, w₃.state.erasable env tenantId address callId = true := by
    rw [hw₃.2]
    exact h₂
  have hcleared : Cleared w₃.state callIds := hw ▸ cleared_withoutDetail hrecordings hdeliveries
  refine (Course.Heads.command (partway_anonymised h₃ hcleared)).mono fun n w' hw' => ?_
  rw [hw] at hw'
  exact hw'

/-! ### What a batch leaves -/

section left

variable {w w' : World} (h : ∀ callId ∈ callIds, w.erasable env tenantId address callId = true)
  (hcalls : w'.calls = w.calls.updateAll (matched tenantId callIds) Call.anonymised)
include h

theorem entries_matched : w.calls.entries (matched tenantId callIds) =
    (w.erasableCalls env tenantId address).filter fun e => e.1 ∈ callIds := by
  have hboth : w.calls.entries (matched tenantId callIds) =
      w.calls.entries fun id call => call.erasable env tenantId address && id ∈ callIds := by
    refine Table.entries_congr fun id call hcall => ?_
    cases herasable : call.erasable env tenantId address with
    | true => rw [matched_of_erasable herasable, Bool.true_and]
    | false =>
      rw [Bool.false_and, Bool.eq_false_iff]
      intro hmatched
      simp only [matched, Bool.and_eq_true, decide_eq_true_iff] at hmatched
      rw [← erasable_of_get hcall, h id hmatched.1.2] at herasable
      cases herasable
  rw [hboth, Table.entries_and]
  rfl

include hcalls

theorem length_erasableCalls : (w.erasableCalls env tenantId address).length =
    (w.calls.entries (matched tenantId callIds)).length + (w'.erasableCalls env tenantId address).length := by
  have hleft : w'.erasableCalls env tenantId address =
      (w.erasableCalls env tenantId address).filter fun e => !decide (e.1 ∈ callIds) := by
    rw [World.erasableCalls, hcalls, Table.entries_updateAll _ _ _ _ fun _ call _ => erasable_anonymised call]
    refine List.filter_congr fun e he => ?_
    rw [matched_of_erasable (Table.mem_entries.mp he).2]
  rw [hleft, entries_matched h, List.length_eq_length_filter_add fun e : Nat × Call => decide (e.1 ∈ callIds)]

variable (hrecordings : w'.recordings = w.recordings.removeAll fun _ row => row.callId ∈ callIds)
include hrecordings

omit h in
theorem erasableRecordings_left : w'.erasableRecordings env tenantId address =
    (w.erasableRecordings env tenantId address).filter fun e => !decide (e.2.callId ∈ callIds) := by
  have hother : ∀ callId, callId ∉ callIds →
      w'.erasable env tenantId address callId = w.erasable env tenantId address callId := by
    intro callId hmem
    show (w'.calls.get callId).any _ = _
    rw [hcalls]
    exact erasable_anonymised_of_not_mem hmem
  rw [World.erasableRecordings, World.erasableRecordings, hrecordings]
  refine Eq.trans ?_ (Table.entries_removeAll w.recordings (fun _ row => row.callId ∈ callIds) _)
  refine Table.entries_congr fun id row hrow => hother _ ?_
  rw [Table.get_removeAll, Option.filter_eq_some_iff] at hrow
  simpa using hrow.2

theorem length_erasableRecordings : (w.erasableRecordings env tenantId address).length =
    (w.recordings.entries fun _ row => row.callId ∈ callIds).length +
      (w'.erasableRecordings env tenantId address).length := by
  have hbatch : (w.recordings.entries fun _ row => row.callId ∈ callIds) =
      (w.erasableRecordings env tenantId address).filter fun e => e.2.callId ∈ callIds := by
    refine Eq.trans ?_ (Table.entries_and w.recordings _ fun _ row => row.callId ∈ callIds)
    refine Table.entries_congr fun id row _ => ?_
    by_cases hmem : row.callId ∈ callIds
    · simp [hmem, h _ hmem]
    · simp [hmem]
  rw [erasableRecordings_left hcalls hrecordings, hbatch,
    List.length_eq_length_filter_add fun e : Nat × Recording => decide (e.2.callId ∈ callIds)]

end left

/-- No call of the customer's is left to erase. -/
theorem erased_of_none {w : World} (hnone : w.erasableCalls env tenantId address = []) :
    w.erased env tenantId address = w ∧ w.erasableRecordings env tenantId address = [] := by
  have hcalls : ∀ id call, w.calls.get id = some call → call.erasable env tenantId address = false := by
    intro id call hcall
    rw [Bool.eq_false_iff]
    intro herasable
    have hmem : (id, call) ∈ w.erasableCalls env tenantId address := Table.mem_entries.mpr ⟨hcall, herasable⟩
    rw [hnone] at hmem
    cases hmem
  have herasable : ∀ callId, w.erasable env tenantId address callId = false := by
    intro callId
    cases hcall : w.calls.get callId with
    | none => rw [World.erasable, hcall]; rfl
    | some call => rw [erasable_of_get hcall, hcalls callId call hcall]
  constructor
  · refine World.ext ?_ ?_ ?_ (funext fun table => ?_) (funext fun key => ?_)
    · exact Table.updateAll_of_none fun id call hcall htrue => by rw [hcalls id call hcall] at htrue; cases htrue
    · exact Table.removeAll_of_none fun _ row _ => herasable row.callId
    · refine Table.removeAll_of_none fun _ callId _ => ?_
      cases callId with
      | none => rfl
      | some callId => exact herasable callId
    · cases table with
      | callLifecycleEvents | ivrSessions => exact Table.removeAll_of_none fun _ row _ => herasable row.callId
      | callConnections =>
        exact Table.updateAll_of_none fun _ row _ htrue => by rw [herasable row.callId] at htrue; cases htrue
      | callTransferLogs | callParticipants => rfl
    · have hany : (w.recordings.any fun _ row =>
          w.erasable env tenantId address row.callId && storedKey row = some key) = false :=
        (Table.any_eq_false _ _).mpr fun _ row _ => by rw [herasable row.callId]; rfl
      show (w.objects key && !_) = w.objects key
      rw [hany]
      exact Bool.and_true _
  · refine List.eq_nil_iff_forall_not_mem.mpr fun e he => ?_
    have htrue := (Table.mem_entries.mp he).2
    rw [herasable] at htrue
    cases htrue

/-! ### The loop -/

theorem Refused.mono {recordings recordings' : List Recording} {faults faults' : List Bool} {error : ErasureError}
    (h : Refused env recordings faults error) (hrecordings : recordings ⊆ recordings') (hfaults : faults <:+ faults') :
    Refused env recordings' faults' error := by
  rcases h with ⟨hcode, row, hrow, hunsettled⟩ | ⟨hcode, hstorage⟩
  · exact .inl ⟨hcode, row, hrecordings hrow, hunsettled⟩
  · exact .inr ⟨hcode, hstorage.imp_right fun hfault => hfaults.subset hfault⟩

/-- What the loop returns after it counted `calls` and `recordings`. -/
def Erases (env : Env) (tenantId : Nat) (address : Text) (fuel calls recordings : Nat) (w : Faulty World)
    (reply : Reply (Nat × Nat)) (w' : World) : Prop :=
  match reply with
  | .done counts => w' = w.state.erased env tenantId address ∧
      counts = (calls + (w.state.erasableCalls env tenantId address).length,
        recordings + (w.state.erasableRecordings env tenantId address).length)
  | .refused error =>
      Refused env ((w.state.erasableRecordings env tenantId address).map Prod.snd) w.faults error
  | .unfinished => fuel ≤ (w.state.erasableCalls env tenantId address).length

/-- What it returns is what it would have returned had it counted from the beginning. -/
theorem Erases.before {fuel fuel' calls recordings n k : Nat} {w₁ : Faulty World} {reply : Reply (Nat × Nat)}
    {w' : World}
    (h : Erases env tenantId address fuel (calls + n) (recordings + k) w₁ reply w')
    (hruns : (erasing env tenantId address).Advances w w₁)
    (hcalls : (w.state.erasableCalls env tenantId address).length =
      n + (w₁.state.erasableCalls env tenantId address).length)
    (hrecordings : (w.state.erasableRecordings env tenantId address).length =
      k + (w₁.state.erasableRecordings env tenantId address).length)
    (hsub : w₁.state.erasableRecordings env tenantId address ⊆ w.state.erasableRecordings env tenantId address)
    (hfuel : fuel' ≤ n + fuel) : Erases env tenantId address fuel' calls recordings w reply w' := by
  cases reply with
  | done counts =>
    refine ⟨h.1.trans hruns.partway.same, ?_⟩
    rw [h.2, hcalls, hrecordings, Nat.add_assoc, Nat.add_assoc]
  | refused error => exact Refused.mono h (List.map_subset _ hsub) hruns.faults
  | unfinished =>
    have hleft : fuel ≤ (w₁.state.erasableCalls env tenantId address).length := h
    show fuel' ≤ _
    omega

theorem erasable_of_mem_take {w : World} {n callId : Nat}
    (hmem : callId ∈ ((w.erasableCalls env tenantId address).take n).map Prod.fst) :
    w.erasable env tenantId address callId = true := by
  obtain ⟨⟨id, call⟩, hentry, rfl⟩ := List.mem_map.mp hmem
  obtain ⟨hcall, herasable⟩ := Table.mem_entries.mp (List.mem_of_mem_take hentry)
  rw [erasable_of_get hcall, herasable]

theorem exists_matched {w : World} (h : ∀ callId ∈ callIds, w.erasable env tenantId address callId = true)
    (hne : callIds ≠ []) : ∃ e, e ∈ (w.erasableCalls env tenantId address).filter fun e => e.1 ∈ callIds := by
  have hhead := List.head_mem hne
  obtain ⟨call, hcall, herasable⟩ := (Option.any_eq_true _ _).mp (h _ hhead)
  exact ⟨(_, call), List.mem_filter.mpr ⟨Table.mem_entries.mpr ⟨hcall, herasable⟩, decide_eq_true hhead⟩⟩

/-- A batch that is not empty, and the loop after it. -/
theorem batch_heads {fuel calls recordings : Nat} (hne : callIds ≠ [])
    (herasable : ∀ callId ∈ callIds, w.state.erasable env tenantId address callId = true)
    (ih : ∀ calls recordings w', (erasing env tenantId address).Heads
      (eraseCalls env tenantId address fuel calls recordings) w'
      (Erases env tenantId address fuel calls recordings w')) :
    (erasing env tenantId address).Heads (do
      let rows ← recordingsOf callIds
      match ← deleteRecordingFiles env (rows.map Prod.snd) with
      | some error => return .refused error
      | none =>
        let deleted ← deleteRecordingRows (rows.map Prod.fst)
        let _ ← deleteDeliveries callIds
        let erased ← anonymise tenantId callIds
        if erased = 0 then return .done (calls + erased, recordings + deleted)
        else eraseCalls env tenantId address fuel (calls + erased) (recordings + deleted)) w
      (Erases env tenantId address (fuel + 1) calls recordings w) := by
  refine (recordingsOf_heads hne).bind fun rows w₁ hruns₁ hw₁ => ?_
  obtain ⟨hw₁, hrows⟩ := hw₁
  have hmem : ∀ row ∈ rows.map Prod.snd, ∃ id, w.state.recordings.get id = some row ∧ row.callId ∈ callIds := by
    intro row hrow
    obtain ⟨⟨id, row⟩, hentry, rfl⟩ := List.mem_map.mp hrow
    rw [hrows] at hentry
    obtain ⟨hget, hcall⟩ := Table.mem_entries.mp hentry
    exact ⟨id, hget, decide_eq_true_iff.mp hcall⟩
  have hfiles : ∀ row ∈ rows.map Prod.snd, ∀ key, storedKey row = some key →
      ∀ w', w₁.state.Without w' → (erasing env tenantId address).Partway w' (w'.withoutObject key) := by
    rintro row hrow key hkey w' ⟨objects, rfl, -⟩
    obtain ⟨id, hget, hcall⟩ := hmem row hrow
    rw [hw₁]
    exact partway_objects hget (herasable _ hcall) hkey
  refine (deleteRecordingFiles_heads hfiles).bind fun error w₂ hruns₂ hw₂ => ?_
  obtain ⟨⟨objects, hw₂, -⟩, herror⟩ := hw₂
  rw [hw₁] at hw₂
  cases error with
  | some error =>
    refine .pure (Refused.mono herror (fun row hrow => ?_) hruns₁.faults)
    obtain ⟨id, hget, hcall⟩ := hmem row hrow
    exact List.mem_map.mpr ⟨(id, row), Table.mem_entries.mpr ⟨hget, herasable _ hcall⟩, rfl⟩
  | none =>
    have h₂ : ∀ callId ∈ callIds, w₂.state.erasable env tenantId address callId = true := by
      rw [hw₂]
      exact herasable
    have hrows₂ : rows = w₂.state.recordings.entries fun _ row => row.callId ∈ callIds := by rw [hw₂, hrows]
    have hgone : ∀ id row, w₂.state.recordings.get id = some row → row.callId ∈ callIds →
        ∀ key, storedKey row = some key → w₂.state.objects key = false := by
      intro id row hrow hcall key hkey
      refine herror row (List.mem_map.mpr ⟨(id, row), ?_, rfl⟩) key hkey
      rw [hrows₂]
      exact Table.mem_entries.mpr ⟨hrow, decide_eq_true hcall⟩
    have hdelete := deleteRecordingRows_heads h₂ hgone
    rw [← hrows₂] at hdelete
    refine hdelete.bind fun deleted w₃ hruns₃ hw₃ => ?_
    obtain ⟨hdeleted, hw₃⟩ := hw₃
    have h₃ : ∀ callId ∈ callIds, w₃.state.erasable env tenantId address callId = true := by
      rw [hw₃]
      exact h₂
    refine (deleteDeliveries_heads hne h₃).bind fun _ w₄ hruns₄ hw₄ => ?_
    have h₄ : ∀ callId ∈ callIds, w₄.state.erasable env tenantId address callId = true := by
      rw [hw₄]
      exact h₃
    have hrecordings : w₄.state.recordings = w.state.recordings.removeAll fun _ row => row.callId ∈ callIds := by
      rw [hw₄, hw₃, hw₂]
    have hcalls : w₄.state.calls = w.state.calls := by rw [hw₄, hw₃, hw₂]
    refine (anonymise_heads hne h₄ (fun id row hrow => ?_) fun id callId hrow => ?_).bind fun erased w₅ hruns₅ hw₅ => ?_
    · rw [hrecordings, Table.get_removeAll, Option.filter_eq_some_iff] at hrow
      simpa using hrow.2
    · rw [hw₄, Table.get_removeAll, Option.filter_eq_some_iff] at hrow
      simpa using hrow.2
    obtain ⟨herased, hw₅⟩ := hw₅
    rw [hcalls] at herased
    have hcalls₅ : w₅.state.calls = w.state.calls.updateAll (matched tenantId callIds) Call.anonymised := by
      rw [hw₅, ← hcalls]
      rfl
    have hrecordings₅ : w₅.state.recordings = w.state.recordings.removeAll fun _ row => row.callId ∈ callIds := by
      rw [hw₅, ← hrecordings]
      rfl
    have hlength := length_erasableCalls herasable hcalls₅
    have hlength' := length_erasableRecordings herasable hcalls₅ hrecordings₅
    rw [← herased] at hlength
    rw [← hrows, ← hdeleted] at hlength'
    have hpos : 0 < erased := by
      obtain ⟨e, he⟩ := exists_matched herasable hne
      rw [herased, entries_matched herasable]
      exact List.length_pos_of_mem he
    rw [if_neg (Nat.ne_of_gt hpos)]
    refine (ih (calls + erased) (recordings + deleted) w₅).mono fun reply w' h => ?_
    have hruns := hruns₁.trans (hruns₂.trans (hruns₃.trans (hruns₄.trans hruns₅)))
    refine h.before hruns hlength hlength' (fun e he => ?_) (by omega)
    rw [erasableRecordings_left hcalls₅ hrecordings₅] at he
    exact List.mem_of_mem_filter he

theorem eraseCalls_heads (fuel calls recordings : Nat) (w : Faulty World) :
    (erasing env tenantId address).Heads (eraseCalls env tenantId address fuel calls recordings) w
      (Erases env tenantId address fuel calls recordings w) := by
  induction fuel generalizing calls recordings w with
  | zero => exact .pure (Nat.zero_le _)
  | succ fuel ih =>
    refine select_heads.bind fun callIds w₁ hruns₁ hw₁ => ?_
    obtain ⟨hids, hw₁⟩ := hw₁
    replace hids : callIds = ((w.state.erasableCalls env tenantId address).take batch).map Prod.fst := hids
    split
    · rename_i hempty
      have hnone : w.state.erasableCalls env tenantId address = [] := by
        rw [List.isEmpty_iff, hids, List.map_eq_nil_iff, List.take_eq_nil_iff] at hempty
        exact hempty.resolve_left (by decide)
      refine .pure ⟨by rw [hw₁, (erased_of_none hnone).1], ?_⟩
      rw [hnone, (erased_of_none hnone).2]
      rfl
    · rename_i hne
      replace hne : callIds ≠ [] := by simpa using hne
      have herasable : ∀ callId ∈ callIds, w.state.erasable env tenantId address callId = true :=
        fun callId hmem => erasable_of_mem_take (hids ▸ hmem)
      refine (batch_heads hne (hw₁ ▸ herasable) ih).mono fun reply w' h => ?_
      exact h.before hruns₁ (by rw [hw₁, Nat.zero_add]) (by rw [hw₁, Nat.zero_add]) (hw₁ ▸ List.Subset.refl _)
        (Nat.zero_add _).ge

end batches

section customer

variable {env : Env} {tenantId : Nat} {address : Text}

theorem activeCalls_erased (w : World) :
    (w.erased env tenantId address).activeCalls env tenantId address = w.activeCalls env tenantId address := by
  refine Table.filter_updateAll w.calls fun id call herasable => ⟨?_, ?_⟩
  · simp only [Call.erasable, Bool.and_eq_true] at herasable
    simp [herasable.2]
  · simp [Call.of, Call.anonymised]

/-- What a request returns. -/
def Answers (env : Env) (tenantId : Nat) (address : Text) (fuel : Nat) (w : Faulty World) (reply : Reply Counts)
    (w' : World) : Prop :=
  match reply with
  | .done counts => w' = w.state.erased env tenantId address ∧
      counts.callsErased = (w.state.erasableCalls env tenantId address).length ∧
      counts.recordingsDeleted = (w.state.erasableRecordings env tenantId address).length ∧
      counts.activeCallsSkipped = (w.state.activeCalls env tenantId address).length
  | .refused error =>
      Refused env ((w.state.erasableRecordings env tenantId address).map Prod.snd) w.faults error
  | .unfinished => fuel ≤ (w.state.erasableCalls env tenantId address).length

theorem eraseCustomer_heads (fuel : Nat) (w : Faulty World) :
    (erasing env tenantId address).Heads (eraseCustomer env tenantId fuel address) w
      (Answers env tenantId address fuel w) := by
  refine (eraseCalls_heads fuel 0 0 w).bind fun reply w₁ _ hreply => ?_
  cases reply with
  | unfinished => exact .pure hreply
  | refused error => exact .pure hreply
  | done counts =>
    obtain ⟨hw₁, rfl⟩ := hreply
    refine select_heads.bind fun active w₂ _ hw₂ => .pure ⟨hw₂.2.trans hw₁, Nat.zero_add _, Nat.zero_add _, ?_⟩
    rw [hw₂.1, hw₁]
    exact congrArg List.length (activeCalls_erased w.state)

/-- The request made again and again: of each, how often its loop goes round at most and which commands fail. -/
def requested (env : Env) (tenantId : Nat) (address : Text) (w : World) (requests : List (Nat × List Bool)) : World :=
  Course.after w (requests.map fun request => (eraseCustomer env tenantId request.1 address, request.2))

theorem partway_requested (w : World) (requests : List (Nat × List Bool)) :
    (erasing env tenantId address).Partway w (requested env tenantId address w requests) := by
  refine Course.partway_after (fun run hrun w' => ?_) w
  obtain ⟨request, -, rfl⟩ := List.mem_map.mp hrun
  exact ⟨_, eraseCustomer_heads request.1 w'⟩

/-- Whatever failed before, a request that returns leaves the world as one that nothing stopped; whatever fails in
it, nothing but the customer's ended calls is touched. -/
theorem eraseCustomer_resumes (w : World) (requests : List (Nat × List Bool)) (fuel : Nat) (faults : List Bool) :
    let w₁ := requested env tenantId address w requests
    (eraseCustomer env tenantId fuel address).Ends ⟨w₁, faults⟩
      (fun reply w' => World.Between w (w.erased env tenantId address) w'.state ∧
        match reply with
        | .done counts => w'.state = w.erased env tenantId address ∧
            counts.callsErased = (w₁.erasableCalls env tenantId address).length ∧
            counts.recordingsDeleted = (w₁.erasableRecordings env tenantId address).length ∧
            counts.activeCallsSkipped = (w₁.activeCalls env tenantId address).length
        | .refused error => Refused env ((w₁.erasableRecordings env tenantId address).map Prod.snd) faults error
        | .unfinished => fuel ≤ (w₁.erasableCalls env tenantId address).length)
      fun w' => World.Between w (w.erased env tenantId address) w'.state ∧ true ∈ faults := by
  intro w₁
  have hbefore : (erasing env tenantId address).Partway w w₁ := partway_requested w requests
  refine Ends.mono (eraseCustomer_heads fuel ⟨w₁, faults⟩) ?_ ?_
  · rintro reply w' ⟨hruns, hreply⟩
    refine ⟨(hbefore.trans hruns.partway).between, ?_⟩
    cases reply with
    | done counts => exact ⟨hreply.1.trans hbefore.same, hreply.2⟩
    | refused error => exact hreply
    | unfinished => exact hreply
  · exact fun w' hw' => ⟨(hbefore.trans hw'.1.partway).between, hw'.2⟩

end customer

/-! ## One call -/

section call

variable {env : Env} {tenantId callId : Nat}

/-- It is an ended call of the tenant's. -/
def World.deletable (tenantId callId : Nat) (w : World) : Bool :=
  (w.calls.get callId).any fun call => call.tenantId = tenantId && ended call.status

/-- The world without the call, if it may be deleted. -/
def World.deleted (tenantId callId : Nat) (w : World) : World :=
  if w.deletable tenantId callId then
    { calls := w.calls.remove callId
      recordings := w.recordings.removeAll fun _ row => row.callId = callId
      deliveries := w.deliveries.removeAll fun _ => about [callId]
      detail := fun table => (w.detail table).removeAll fun _ row => row.callId = callId
      objects := fun key =>
        w.objects key && !w.recordings.any fun _ row => row.callId = callId && storedKey row = some key }
  else w

def deleting (tenantId callId : Nat) : Course World := ⟨World.deleted tenantId callId, World.Between, .refl, .trans⟩

section deletable

variable {w : World} (hdeletable : w.deletable tenantId callId = true)
include hdeletable

theorem deleted_of_deletable : w.deleted tenantId callId =
    { calls := w.calls.remove callId
      recordings := w.recordings.removeAll fun _ row => row.callId = callId
      deliveries := w.deliveries.removeAll fun _ => about [callId]
      detail := fun table => (w.detail table).removeAll fun _ row => row.callId = callId
      objects := fun key =>
        w.objects key && !w.recordings.any fun _ row => row.callId = callId && storedKey row = some key } :=
  if_pos hdeletable

theorem deleting_objects {id : Nat} {row : Recording} {key : Text} (hrow : w.recordings.get id = some row)
    (hcall : row.callId = callId) (hkey : storedKey row = some key) :
    (deleting tenantId callId).Partway w (w.withoutObject key) := by
  have hany : (w.recordings.any fun _ row => row.callId = callId && storedKey row = some key) = true :=
    (Table.any_eq_true _ _).mpr ⟨id, row, hrow, by simp [hcall, hkey]⟩
  have hgone : (w.deleted tenantId callId).objects key = false := by
    rw [deleted_of_deletable hdeletable]
    simp [hany]
  constructor
  · refine ⟨.refl _ _, .refl _ _, .refl _ _, fun _ => .refl _ _, fun k => ?_⟩
    by_cases hk : k = key
    · subst hk
      exact .inr (.trans (by simp [World.withoutObject]) hgone.symm)
    · exact .inl (by simp [World.withoutObject, hk])
  · show (w.withoutObject key).deleted tenantId callId = w.deleted tenantId callId
    refine (if_pos hdeletable).trans (Eq.trans ?_ (deleted_of_deletable hdeletable).symm)
    refine World.ext rfl rfl rfl rfl (funext fun k => ?_)
    by_cases hk : k = key
    · subst hk
      simp [World.withoutObject, hany]
    · simp [World.withoutObject, hk]

theorem deleting_deliveries : (deleting tenantId callId).Partway w
    { w with deliveries := w.deliveries.removeAll fun _ => about [callId] } := by
  constructor
  · refine ⟨.refl _ _, .refl _ _, fun id => .inr ?_, fun _ => .refl _ _, fun _ => .inl rfl⟩
    show _ = (w.deleted tenantId callId).deliveries.get id
    rw [deleted_of_deletable hdeletable]
  · refine (if_pos hdeletable).trans (Eq.trans ?_ (deleted_of_deletable hdeletable).symm)
    exact World.ext rfl rfl (Table.removeAll_removeAll fun _ _ _ h => h) rfl rfl

/-- The call's row takes with it what is left of the call. -/
theorem deleted_eq_withoutCall
    (hdeliveries : ∀ id callId', w.deliveries.get id = some callId' → about [callId] callId' = false)
    (hobjects : ∀ id row, w.recordings.get id = some row → row.callId = callId →
      ∀ key, storedKey row = some key → w.objects key = false) :
    w.deleted tenantId callId = w.withoutCall callId := by
  rw [deleted_of_deletable hdeletable]
  refine World.ext rfl rfl (Table.eq_of_get (fun id => ?_) rfl) rfl (funext fun key => ?_)
  · show (w.deliveries.removeAll _).get id = (w.deliveries.map _).get id
    rw [Table.get_removeAll, Table.get_map]
    cases hrow : w.deliveries.get id with
    | none => rfl
    | some callId' =>
      have habout := hdeliveries id callId' hrow
      cases callId' with
      | none => rfl
      | some callId' =>
        have hne : callId' ≠ callId := by simpa [about] using habout
        simp [Option.filter_some, about, hne]
  · show (w.objects key && !_) = w.objects key
    cases hobject : w.objects key with
    | false => rfl
    | true =>
      rw [Bool.true_and, Bool.not_eq_true']
      refine (Table.any_eq_false _ _).mpr fun id row hrow => Bool.eq_false_iff.mpr fun h => ?_
      rw [Bool.and_eq_true, decide_eq_true_iff, decide_eq_true_iff] at h
      rw [hobjects id row hrow h.1 key h.2] at hobject
      cases hobject

omit hdeletable in
theorem deleting_withoutCall (heq : w.deleted tenantId callId = w.withoutCall callId) :
    (deleting tenantId callId).Partway w (w.withoutCall callId) := by
  constructor
  · rw [← heq]
    exact ⟨fun _ => .inr rfl, fun _ => .inr rfl, fun _ => .inr rfl, fun _ _ => .inr rfl, fun _ => .inr rfl⟩
  · refine Eq.trans ?_ heq.symm
    refine if_neg fun h => ?_
    simp [World.deletable, World.withoutCall] at h

end deletable

section deletable

variable {w : Faulty World} (hdeletable : w.state.deletable tenantId callId = true)
include hdeletable

theorem deleteDelivery_heads : (deleting tenantId callId).Heads (deleteDeliveries [callId]) w fun _ w' =>
    w' = { w.state with deliveries := w.state.deliveries.removeAll fun _ => about [callId] } := by
  rw [deleteDeliveries, if_neg (by simp)]
  exact (Course.Heads.command (deleting_deliveries hdeletable)).mono fun _ _ hw' => hw'.2

theorem deleteEndedCall_heads (heq : w.state.deleted tenantId callId = w.state.withoutCall callId) :
    (deleting tenantId callId).Heads (deleteEndedCall tenantId callId) w fun _ w' =>
      w' = w.state.withoutCall callId := by
  have heffect : (if (w.state.calls.get callId).any fun call => call.tenantId = tenantId && ended call.status then
      (w.state.withoutCall callId, true) else (w.state, false)) = (w.state.withoutCall callId, true) :=
    if_pos hdeletable
  refine (Course.Heads.command ?_).mono fun _ w' hw' => ?_
  · rw [heffect]
    exact deleting_withoutCall heq
  · rw [heffect] at hw'
    exact hw'.2

end deletable

/-- What a request returns. -/
def Deletes (env : Env) (tenantId callId : Nat) (w : Faulty World) (reply : Reply Bool) (w' : World) : Prop :=
  match reply with
  | .done found => w' = w.state.deleted tenantId callId ∧
      (found = true → w.state.deletable tenantId callId = true) ∧
      (found = false → ∀ call, w.state.calls.get callId = some call → call.tenantId ≠ tenantId)
  | .refused error =>
      error.code = .callActive ∧ (∃ call, w.state.calls.get callId = some call ∧ ended call.status = false) ∨
        Refused env ((w.state.recordings.entries fun _ row => row.callId ∈ [callId]).map Prod.snd) w.faults error
  | .unfinished => False

theorem deleteCall_heads (w : Faulty World) :
    (deleting tenantId callId).Heads (deleteCall env tenantId callId) w (Deletes env tenantId callId w) := by
  refine select_heads.bind fun found w₁ hruns₁ hw₁ => ?_
  obtain ⟨hfound, hw₁⟩ := hw₁
  cases found with
  | none =>
    have hother : ∀ call, w.state.calls.get callId = some call → call.tenantId ≠ tenantId := by
      intro call hcall htenant
      rw [hcall, Option.filter_some, if_pos (decide_eq_true htenant)] at hfound
      cases hfound
    refine .pure ⟨hw₁.trans (if_neg fun h => ?_).symm, nofun, fun _ => hother⟩
    obtain ⟨call, hcall, h⟩ := (Option.any_eq_true _ _).mp h
    rw [Bool.and_eq_true, decide_eq_true_iff] at h
    exact hother call hcall h.1
  | some call =>
    obtain ⟨hcall, htenant⟩ := Option.filter_eq_some_iff.mp hfound.symm
    dsimp only
    split
    · rename_i hactive
      exact .pure (.inl ⟨rfl, call, hcall, by simpa using hactive⟩)
    · rename_i hended
      have hdeletable : w.state.deletable tenantId callId = true := by
        rw [World.deletable, hcall, Option.any_some, htenant, Bool.true_and]
        simpa using hended
      have hne : [callId] ≠ [] := List.cons_ne_nil _ _
      refine (recordingsOf_heads hne).bind fun rows w₂ hruns₂ hw₂ => ?_
      obtain ⟨hw₂, hrows⟩ := hw₂
      rw [hw₁] at hw₂ hrows
      have hmem : ∀ row ∈ rows.map Prod.snd, ∃ id, w.state.recordings.get id = some row ∧ row.callId = callId := by
        intro row hrow
        obtain ⟨⟨id, row⟩, hentry, rfl⟩ := List.mem_map.mp hrow
        rw [hrows] at hentry
        obtain ⟨hget, hof⟩ := Table.mem_entries.mp hentry
        exact ⟨id, hget, List.mem_singleton.mp (decide_eq_true_iff.mp hof)⟩
      have hfiles : ∀ row ∈ rows.map Prod.snd, ∀ key, storedKey row = some key →
          ∀ w', w₂.state.Without w' → (deleting tenantId callId).Partway w' (w'.withoutObject key) := by
        rintro row hrow key hkey w' ⟨objects, rfl, -⟩
        obtain ⟨id, hget, hof⟩ := hmem row hrow
        rw [hw₂]
        exact deleting_objects (w := { w.state with objects }) hdeletable hget hof hkey
      refine (deleteRecordingFiles_heads hfiles).bind fun error w₃ hruns₃ hw₃ => ?_
      obtain ⟨⟨objects, hw₃, -⟩, herror⟩ := hw₃
      rw [hw₂] at hw₃
      cases error with
      | some error =>
        refine .pure (.inr (Refused.mono herror (fun row hrow => ?_) (hruns₁.trans hruns₂).faults))
        rwa [← hrows]
      | none =>
        have h₃ : w₃.state.deletable tenantId callId = true := by
          rw [hw₃]
          exact hdeletable
        refine (deleteDelivery_heads h₃).bind fun _ w₄ hruns₄ hw₄ => ?_
        have h₄ : w₄.state.deletable tenantId callId = true := by
          rw [hw₄]
          exact h₃
        have hdeleted : w₄.state.deleted tenantId callId = w₄.state.withoutCall callId := by
          refine deleted_eq_withoutCall h₄ (fun id callId' hrow => ?_) fun id row hrow hof key hkey => ?_
          · rw [hw₄, Table.get_removeAll, Option.filter_eq_some_iff] at hrow
            simpa using hrow.2
          · rw [hw₄] at hrow ⊢
            have hrow' : w.state.recordings.get id = some row := by rwa [hw₃] at hrow
            refine herror row (List.mem_map.mpr ⟨(id, row), ?_, rfl⟩) key hkey
            rw [hrows]
            exact Table.mem_entries.mpr ⟨hrow', decide_eq_true (List.mem_singleton.mpr hof)⟩
        refine (deleteEndedCall_heads h₄ hdeleted).bind fun _ w₅ hruns₅ hw₅ => .pure ⟨?_, fun _ => hdeletable, nofun⟩
        have hruns := hruns₁.trans (hruns₂.trans (hruns₃.trans hruns₄))
        exact (hw₅.trans hdeleted.symm).trans hruns.partway.same

/-- The request to delete a call, made again after whatever failed before. -/
theorem deleteCall_resumes (w : World) (requests : List (List Bool)) (faults : List Bool) :
    let w₁ := Course.after w (requests.map fun faults => (deleteCall env tenantId callId, faults))
    (deleteCall env tenantId callId).Ends ⟨w₁, faults⟩
      (fun reply w' => World.Between w (w.deleted tenantId callId) w'.state ∧
        Deletes env tenantId callId ⟨w₁, faults⟩ reply w'.state ∧
        (∀ found, reply = .done found → w'.state = w.deleted tenantId callId))
      fun w' => World.Between w (w.deleted tenantId callId) w'.state ∧ true ∈ faults := by
  intro w₁
  have hbefore : (deleting tenantId callId).Partway w w₁ := by
    refine Course.partway_after (fun run hrun w' => ?_) w
    obtain ⟨_, -, rfl⟩ := List.mem_map.mp hrun
    exact ⟨Deletes env tenantId callId w', deleteCall_heads w'⟩
  refine Ends.mono (deleteCall_heads ⟨w₁, faults⟩) ?_ ?_
  · rintro reply w' ⟨hruns, hreply⟩
    refine ⟨(hbefore.trans hruns.partway).between, hreply, ?_⟩
    rintro found rfl
    exact hreply.1.trans hbefore.same
  · exact fun w' hw' => ⟨(hbefore.trans hw'.1.partway).between, hw'.2⟩

end call

end Callio.CallErasure
