import Docket.Proofs.Documents
import Docket.Proofs.Entries
import Docket.Proofs.Verdicts

/-! # Dry runs

A dry run of a change of status, the change itself and the listing of changes come to their answers
in different ways: the first two load the document, and the third its status only. They agree all
the same, as long as no other call comes between them.
-/

namespace Docket

open Store

namespace Store

variable {s t : Store} {tenant id : Id} {d e saved : Document} {r : DocumentRow}
  {change : StatusChange}

theorem findStatus_of_findRow (h : s.findRow tenant id = some r) {status : Status}
    (hstatus : r.status = status.text) : s.findStatus tenant id = .ok (some status) := by
  have hread : readStatus r.status = .ok status := by
    rw [readStatus, hstatus, Status.ofText?_text]
  simp only [findStatus, h, hread, Except.map, lift]

section Change

variable (hd : s.findRow d.tenant d.id = some (.encode d)) (htenant : e.tenant = d.tenant)
  (hid : e.id = d.id)

include hd htenant hid

theorem exists_applyChange (hchange : change.document = d.id) :
    ∃ t, s.applyChange e d.version change = .ok (e, t) := by
  obtain ⟨hmem, -⟩ := mem_of_findRow hd
  refine ⟨_, applyChange_eq_ok_iff.mpr ⟨_, changeDocument_eq_ok_iff.mpr ⟨?_, rfl⟩, ?_, rfl, rfl⟩⟩
  · exact ⟨.encode d, hmem, hid.symm, htenant.symm, rfl⟩
  · refine ⟨_, List.mem_map_of_mem hmem, ?_⟩
    rw [if_pos ⟨hid.symm, htenant.symm, rfl⟩, hchange]
    rfl

theorem findRow_applyChange (h : s.applyChange e d.version change = .ok (saved, t)) :
    t.findRow d.tenant d.id = some ((DocumentRow.encode d).moved e) := by
  obtain ⟨u, hchange, -, -, rfl⟩ := applyChange_eq_ok_iff.mp h
  obtain ⟨-, rfl⟩ := changeDocument_eq_ok_iff.mp hchange
  unfold findRow at hd ⊢
  rw [List.find?_map]
  -- A row is looked up by what no change of status touches.
  have hsame : (fun r : DocumentRow => decide (r.id = d.id ∧ r.tenant = d.tenant)) ∘
      (fun r => if r.id = e.id ∧ r.tenant = e.tenant ∧ r.version = d.version then r.moved e else r)
      = fun r => decide (r.id = d.id ∧ r.tenant = d.tenant) := by
    funext r
    rw [Function.comp_apply]
    split
    · rfl
    · rfl
  rw [hsame, hd, Option.map_some, if_pos ⟨hid.symm, htenant.symm, rfl⟩]

end Change

end Store

namespace Service

open Docket.Action

variable {α : Type} {service : Service} {call : Call} {s : Store} {tenant id : Id} {d : Document}
  {target : Status} {reason : Option String}

/-- The document that a call begins with, for its tenant, or the failure to have it. -/
def loaded (caller : Caller) (id : Id) (s : Store) : Except Failure (Id × Document) :=
  match caller.tenant with
  | none => .error (.error .missingScope)
  | some tenant =>
    if caller.cancelled then .error (.error .cancelled)
    else
      match s.findDocument tenant id with
      | .error f => .error f.toFailure
      | .ok none => .error (.error (.notFound "document" id.text))
      | .ok (some d) => .ok (tenant, d)

theorem loaded_eq_ok_iff :
    loaded call.caller id s = .ok (tenant, d) ↔
      call.ActsFor tenant ∧ s.findDocument tenant id = .ok (some d) := by
  unfold loaded
  constructor
  · intro h
    split at h
    · cases h
    · next owner htenant =>
      split at h
      · cases h
      · next hgoing =>
        split at h
        · cases h
        · cases h
        · next hfind =>
          cases h
          exact ⟨⟨htenant, Bool.eq_false_iff.mpr hgoing⟩, hfind⟩
  · rintro ⟨⟨htenant, hgoing⟩, hfind⟩
    simp only [htenant, hgoing, Bool.false_eq_true, if_false, hfind]

theorem run_loading (g : Id → Document → Action α) :
    (do
      let tenant ← scope call
      start call
      let d ← load tenant id
      g tenant d : Action α).run.run s
      = match loaded call.caller id s with
        | .error f => (.error f, s)
        | .ok (tenant, d) => (g tenant d).run.run s := by
  cases htenant : call.caller.tenant with
  | none =>
    simp only [loaded, scope, htenant]
    rfl
  | some tenant =>
    cases hgoing : call.caller.cancelled with
    | true =>
      simp only [loaded, scope, start, htenant, hgoing]
      rfl
    | false =>
      rw [run_scope_bind ⟨htenant, hgoing⟩, run_start_bind ⟨htenant, hgoing⟩, run_load_bind]
      simp only [loaded, htenant, hgoing, Bool.false_eq_true, if_false]
      cases s.findDocument tenant id with
      | error f => rfl
      | ok found => cases found <;> rfl

def dryRun (service : Service) (call : Call) (id : Id) (target : Status) (s : Store) :
    Except Failure (Outcome Verdict) × Store :=
  service.execute call (.validateTransition id target) s

theorem dryRun_eq :
    service.dryRun call id target s
      = (match loaded call.caller id s with
          | .error f => .error f
          | .ok (_, d) =>
            match d.checkChange target with
            | .error o => .error (.overflow o)
            | .ok verdict => .ok ⟨verdict, []⟩, s) := by
  change (validateTransition call id target).run.run s = _
  rw [validateTransition, run_loading]
  cases loaded call.caller id s with
  | error f => rfl
  | ok found =>
    obtain ⟨tenant, d⟩ := found
    cases hcheck : d.checkChange target with
    | error o => simp only [hcheck]; rfl
    | ok verdict => simp only [hcheck]; rfl

/-- Until the document is to be stored, a change of status goes the way of its dry run. -/
theorem execute_changeStatus :
    service.execute call (.changeStatus id target reason) s
      = match loaded call.caller id s with
        | .error f => (.error f, s)
        | .ok (tenant, d) =>
          match d.checkChange target with
          | .error o => (.error (.overflow o), s)
          | .ok (.rejected o) => (.error (.error o.error), s)
          | .ok .valid => (do
              let version ← Action.compute (succ? d.version)
              let entry := service.change call d target reason version
              let saved : Document ← Action.ask
                (.applyChange (service.changed call d target version) d.version entry)
              return ⟨saved, [.statusChanged (.of tenant entry)]⟩
                : Action (Outcome Document)).run.run s := by
  change (service.changeStatus call id target reason).run.run s = _
  rw [changeStatus, run_loading]
  cases loaded call.caller id s with
  | error f => rfl
  | ok found =>
    obtain ⟨tenant, d⟩ := found
    cases hcheck : d.checkChange target with
    | error o => simp only [hcheck]; rfl
    | ok verdict => cases verdict <;> (simp only [hcheck]; rfl)

theorem execute_availableTransitions (hcall : call.ActsFor tenant) {status : Status}
    (h : s.findStatus tenant id = .ok (some status)) :
    service.execute call (.availableTransitions id) s = (.ok ⟨status.available, []⟩, s) := by
  have hperform : s.perform (.findStatus tenant id) = (.ok (some status), s) := Prod.ext h rfl
  change (availableTransitions call id).run.run s = _
  rw [availableTransitions, run_scope_bind hcall, run_start_bind hcall]
  exact run_ask_bind_of_ok hperform

theorem exists_changeStatus (hloaded : loaded call.caller id s = .ok (tenant, d))
    (hvalid : d.checkChange target = .ok .valid) (hversion : d.version + 1 < int64Bound) :
    ∃ t, service.execute call (.changeStatus id target reason) s
        = (.ok ⟨service.changed call d target (d.version + 1), [.statusChanged (.of tenant
            (service.change call d target reason (d.version + 1)))]⟩, t) ∧
      t.findStatus tenant id = .ok (some target) := by
  obtain ⟨-, hfind⟩ := loaded_eq_ok_iff.mp hloaded
  have hrow := (findDocument_eq_some_iff_findRow.mp hfind).1
  obtain ⟨-, hid, htenant⟩ := mem_of_findRow hrow
  obtain rfl : d.id = id := hid
  obtain rfl : d.tenant = tenant := htenant
  let e := service.changed call d target (d.version + 1)
  let entry := service.change call d target reason (d.version + 1)
  obtain ⟨t, happly⟩ : ∃ t, s.applyChange e d.version entry = .ok (e, t) :=
    exists_applyChange hrow rfl rfl rfl
  have hmoved : t.findRow d.tenant d.id = some ((DocumentRow.encode d).moved e) :=
    findRow_applyChange hrow rfl rfl happly
  have hperform : s.perform (.applyChange e d.version entry) = (.ok e, t) :=
    commit_eq_ok_iff.mpr happly
  have hnext : succ? d.version = .ok (d.version + 1) := if_pos hversion
  refine ⟨t, ?_, findStatus_of_findRow hmoved rfl⟩
  rw [execute_changeStatus, hloaded]
  simp only [hvalid, hnext]
  exact run_ask_bind_of_ok hperform

theorem dryRun_eq_ok_iff {outcome : Outcome Verdict} :
    (service.dryRun call id target s).1 = .ok outcome ↔
      ∃ tenant d verdict, loaded call.caller id s = .ok (tenant, d) ∧
        d.checkChange target = .ok verdict ∧ outcome = ⟨verdict, []⟩ := by
  rw [dryRun_eq]
  cases loaded call.caller id s with
  | error f => simp
  | ok found =>
    obtain ⟨tenant, d⟩ := found
    cases hcheck : d.checkChange target with
    | error o => simp [hcheck]
    | ok verdict => simp [hcheck, eq_comm]

theorem dryRun_eq_error_iff {f : Failure} :
    (service.dryRun call id target s).1 = .error f ↔
      loaded call.caller id s = .error f ∨
        ∃ tenant d o, loaded call.caller id s = .ok (tenant, d) ∧
          d.checkChange target = .error o ∧ f = .overflow o := by
  rw [dryRun_eq]
  cases loaded call.caller id s with
  | error f => simp
  | ok found =>
    obtain ⟨tenant, d⟩ := found
    cases hcheck : d.checkChange target with
    | error o => simp [hcheck, eq_comm]
    | ok verdict => simp [hcheck]

theorem loaded_of_getDocument {found : Outcome Document}
    (h : (service.execute call (.getDocument id) s).1 = .ok found) :
    ∃ tenant, loaded call.caller id s = .ok (tenant, found.value) := by
  change ((getDocument call id).run.run s).1 = .ok found at h
  rw [getDocument, run_loading] at h
  cases hloaded : loaded call.caller id s with
  | error f =>
    rw [hloaded] at h
    cases h
  | ok pair =>
    obtain ⟨tenant, d⟩ := pair
    rw [hloaded] at h
    cases h
    exact ⟨tenant, rfl⟩

/-- What a dry run of a change of status says of the change itself, if the same caller makes it
next, and of the changes that are listed for the caller. -/
structure Foretells (service : Service) (call : Call) (id : Id) (target : Status) (s : Store) :
    Prop where
  quiet : ∀ outcome, (service.dryRun call id target s).1 = .ok outcome → outcome.events = []
  still : (service.dryRun call id target s).2 = s
  valid : (service.dryRun call id target s).1 = .ok ⟨.valid, []⟩ →
    (∀ r ∈ s.documents, r.id = id → r.version + 1 < int64Bound) →
    ∀ (next : Call) (reason : Option String), next.caller = call.caller →
      ∃ outcome t, service.execute next (.changeStatus id target reason) s = (.ok outcome, t) ∧
        outcome.value.status = target ∧
        service.execute next (.availableTransitions id) t = (.ok ⟨target.available, []⟩, t)
  rejected : ∀ o, (service.dryRun call id target s).1 = .ok ⟨.rejected o, []⟩ →
    ∀ (next : Call) (reason : Option String), next.caller = call.caller →
      service.execute next (.changeStatus id target reason) s
        = (.error (.error (.transition o.kind o.message)), s)
  failed : ∀ f, (service.dryRun call id target s).1 = .error f →
    ∀ (next : Call) (reason : Option String), next.caller = call.caller →
      service.execute next (.changeStatus id target reason) s = (.error f, s)
  listed : ∀ found, (service.execute call (.getDocument id) s).1 = .ok found →
    ∃ available : List Status,
      service.execute call (.availableTransitions id) s = (.ok ⟨available, []⟩, s) ∧
      ((∃ o, (service.dryRun call id target s).1 = .ok ⟨.rejected o, []⟩ ∧
        o.kind = .invalidTransition) ↔ target ∉ available)

/-- A dry run, the change itself and the listing of changes agree. -/
theorem dry_run_foretells (service : Service) (call : Call) (id : Id) (target : Status)
    (s : Store) : service.Foretells call id target s := by
  constructor
  case quiet =>
    intro outcome h
    obtain ⟨tenant, d, verdict, -, -, rfl⟩ := dryRun_eq_ok_iff.mp h
    rfl
  case still => exact congrArg Prod.snd dryRun_eq
  case valid =>
    intro h hversions next reason hcaller
    obtain ⟨tenant, d, verdict, hloaded, hcheck, heq⟩ := dryRun_eq_ok_iff.mp h
    obtain rfl : .valid = verdict := congrArg Outcome.value heq
    rw [← hcaller] at hloaded
    obtain ⟨hnext, hfind⟩ := loaded_eq_ok_iff.mp hloaded
    obtain ⟨hmem, hid, -⟩ := mem_of_findRow (findDocument_eq_some_iff_findRow.mp hfind).1
    obtain ⟨t, hchange, hstatus⟩ := exists_changeStatus hloaded hcheck (hversions _ hmem hid)
    exact ⟨_, t, hchange, rfl, execute_availableTransitions hnext hstatus⟩
  case rejected =>
    intro o h next reason hcaller
    obtain ⟨tenant, d, verdict, hloaded, hcheck, heq⟩ := dryRun_eq_ok_iff.mp h
    obtain rfl : .rejected o = verdict := congrArg Outcome.value heq
    rw [execute_changeStatus, hcaller, hloaded]
    simp only [hcheck]
    rfl
  case failed =>
    intro f h next reason hcaller
    rw [execute_changeStatus, hcaller]
    rcases dryRun_eq_error_iff.mp h with hloaded | ⟨tenant, d, o, hloaded, hcheck, rfl⟩
    · rw [hloaded]
    · simp only [hloaded, hcheck]
  case listed =>
    intro found h
    obtain ⟨tenant, hloaded⟩ := loaded_of_getDocument h
    obtain ⟨hcall, hfind⟩ := loaded_eq_ok_iff.mp hloaded
    have hrow := (findDocument_eq_some_iff_findRow.mp hfind).1
    refine ⟨_, execute_availableTransitions hcall (findStatus_of_findRow hrow rfl), ?_⟩
    rw [← Document.exists_invalidTransition_iff]
    simp [dryRun_eq_ok_iff, hloaded]

/-- The store of a document that may be cancelled, but not closed. -/
def unreadyStore : Store :=
  { documents := [.encode .unready]
    lines := Document.unready.lines.map (.encode Document.unready.id) }

theorem dry_run_foretells_unready :
    let call : Call :=
      { caller := { tenant := some Document.unready.tenant }, now := default, fresh := default }
    (∃ outcome t, execute {} call (.changeStatus Document.unready.id .cancelled none) unreadyStore
        = (.ok outcome, t) ∧ outcome.value.status = .cancelled) ∧
      execute {} call (.changeStatus Document.unready.id .closed none) unreadyStore
        = (.error (.error (.transition .zeroTotal "Cannot close: gross total is 0")),
            unreadyStore) := by
  intro call
  have hcancel := dry_run_foretells {} call Document.unready.id .cancelled unreadyStore
  have hclose := dry_run_foretells {} call Document.unready.id .closed unreadyStore
  constructor
  · obtain ⟨outcome, t, hchange, hstatus, -⟩ :=
      hcancel.valid (by with_unfolding_all rfl) (by decide) call none rfl
    exact ⟨outcome, t, hchange, hstatus⟩
  · exact hclose.rejected (.closeWithoutTotal .zero) (by with_unfolding_all rfl) call none rfl

end Service

end Docket
