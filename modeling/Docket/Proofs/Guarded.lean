import Docket.Proofs.Admission
import Docket.Proofs.Schedule

/-! # Guarded writes

A call that changes a document loads it and, if it passes its checks, makes one write that goes
through only if the document still has the version that was loaded. Versions grow with every such
write, so a document that still has its version is still the same.
-/

namespace Docket

open Store Issuing Simulation

variable {β : Type} {s t : Store} {d e : Document} {step : Step}

namespace Step

/-- Writes that change a document if it still has the version it was loaded with. -/
def Guards (d : Document) : Step → Prop
  | assignNumber e expected _ =>
    e.id = d.id ∧ e.tenant = d.tenant ∧ expected = d.version ∧ e.version = d.version + 1
  | applyChange e expected c =>
    e.id = d.id ∧ e.tenant = d.tenant ∧ expected = d.version ∧ e.version = d.version + 1 ∧
      c.document = d.id
  | _ => False

theorem Guards.isWrite (h : step.Guards d) : Scene.isWrite step = true := by
  cases step with
  | assignNumber | applyChange => rfl
  | _ => exact h.elim

end Step

namespace Store

def DocumentRow.Matches (r : DocumentRow) (d : Document) : Prop :=
  r.id = d.id ∧ r.tenant = d.tenant ∧ r.version = d.version

instance (r : DocumentRow) (d : Document) : Decidable (r.Matches d) :=
  inferInstanceAs (Decidable (_ ∧ _))

/-- What a guarded write does to documents: the row that matches is changed, and has the next
version. -/
structure Rewrites (s : Store) (d : Document) (t : Store) (f : DocumentRow → DocumentRow) :
    Prop where
  matched : ∃ r ∈ s.documents, r.Matches d
  documents : t.documents = s.documents.map fun r => if r.Matches d then f r else r
  lines : t.lines = s.lines
  id : ∀ r, (f r).id = r.id
  tenant : ∀ r, (f r).tenant = r.tenant
  version : ∀ r, (f r).version = d.version + 1

theorem rewrites_of_changeDocument {expected : Int} {f : DocumentRow → DocumentRow}
    (h : s.changeDocument e expected f = .ok t) (hid : e.id = d.id) (htenant : e.tenant = d.tenant)
    (hexpected : expected = d.version) (hf : ∀ r, (f r).id = r.id ∧ (f r).tenant = r.tenant ∧
      (f r).version = d.version + 1) : s.Rewrites d t f := by
  obtain ⟨hmatched, rfl⟩ := changeDocument_eq_ok_iff.mp h
  have hiff : ∀ r : DocumentRow,
      (r.id = e.id ∧ r.tenant = e.tenant ∧ r.version = expected) ↔ r.Matches d := fun r => by
    rw [hid, htenant, hexpected, DocumentRow.Matches]
  simp only [hiff] at hmatched ⊢
  exact ⟨hmatched, rfl, rfl, fun r => (hf r).1, fun r => (hf r).2.1, fun r => (hf r).2.2⟩

theorem Rewrites.of_tables {s' t' : Store} {f : DocumentRow → DocumentRow}
    (h : s.Rewrites d t f) (hs : s.documents = s'.documents) (hslines : s.lines = s'.lines)
    (ht : t'.documents = t.documents) (htlines : t'.lines = t.lines) : s'.Rewrites d t' f :=
  ⟨hs ▸ h.matched, (ht.trans h.documents).trans (hs ▸ rfl), (htlines.trans h.lines).trans hslines,
    h.id, h.tenant, h.version⟩

theorem Keyed.exists_rewrites (hs : s.Keyed) (hstep : step.Guards d) {a : step.Result}
    (h : (s.perform step).1 = .ok a) : ∃ f, s.Rewrites d (s.perform step).2 f := by
  cases step with
  | assignNumber e expected a =>
    obtain ⟨hid, htenant, hexpected, hversion⟩ := hstep
    obtain ⟨c, u, hadvance, -, -, hchange⟩ := assignNumber_eq_ok_iff.mp (commit_ok h)
    have hrewrites := rewrites_of_changeDocument hchange hid htenant hexpected
      fun r => ⟨rfl, rfl, hversion⟩
    have htables := (hs.advance_eq_ok_iff.mp hadvance).tables
    exact ⟨_, hrewrites.of_tables (by rw [htables]) (by rw [htables]) rfl rfl⟩
  | applyChange e expected c =>
    obtain ⟨hid, htenant, hexpected, hversion, -⟩ := hstep
    obtain ⟨u, hchange, -, -, ht⟩ := applyChange_eq_ok_iff.mp (commit_ok h)
    have hrewrites := rewrites_of_changeDocument hchange hid htenant hexpected
      fun r => ⟨rfl, rfl, hversion⟩
    change ∃ f, s.Rewrites d (s.commit (s.applyChange e expected c)).2 f
    rw [ht]
    exact ⟨_, hrewrites.of_tables rfl rfl rfl rfl⟩
  | _ => exact hstep.elim

theorem perform_of_guards_error (hstep : step.Guards d) {f : StoreFailure}
    (h : (s.perform step).1 = .error f) : (s.perform step).2 = s := by
  cases step with
  | assignNumber | applyChange => exact (commit_error h).2
  | _ => exact hstep.elim

/-- What a store says of a document that was loaded earlier: its version is not less, and if it is
the same then so is the document. -/
def Tracks (s : Store) (d : Document) : Prop :=
  ∃ r ∈ s.documents, r.id = d.id ∧ r.tenant = d.tenant ∧ d.version ≤ r.version ∧
    (r.version = d.version → s.findDocument d.tenant d.id = .ok (some d))

def Outdates (s : Store) (d : Document) : Prop :=
  ∃ r ∈ s.documents, r.id = d.id ∧ d.version < r.version

theorem of_findDocument {tenant id : Id} (h : s.findDocument tenant id = .ok (some d)) :
    d.id = id ∧ d.tenant = tenant ∧ ∃ r ∈ s.documents, r.Matches d := by
  unfold findDocument at h
  split at h
  · cases h
  · next r hr =>
    have hmem := List.mem_of_find?_eq_some hr
    have hkey : r.id = id ∧ r.tenant = tenant := by simpa using List.find?_some hr
    cases hlines : (s.linesOf id).mapM LineRow.decode with
    | error f => simp [hlines, lift, bind, Except.bind] at h
    | ok lines =>
      cases hd : r.decode lines with
      | error f => simp [hlines, hd, lift, bind, Except.bind] at h
      | ok e =>
        simp only [hlines, hd, lift, bind, Except.bind, pure, Except.pure, Except.ok.injEq,
          Option.some.injEq] at h
        subst h
        unfold DocumentRow.decode at hd
        split at hd
        · cases hd
        · obtain rfl := Except.ok.inj hd
          exact ⟨hkey.1, hkey.2, r, hmem, rfl, rfl, rfl⟩

theorem tracks_of_findDocument {tenant id : Id} (h : s.findDocument tenant id = .ok (some d)) :
    s.Tracks d := by
  obtain ⟨rfl, rfl, r, hr, hid, htenant, hversion⟩ := of_findDocument h
  exact ⟨r, hr, hid, htenant, Int.le_of_eq hversion.symm, fun _ => h⟩

theorem findRow_of_mem (hs : (s.documents.map DocumentRow.id).Nodup) {r : DocumentRow}
    (hr : r ∈ s.documents) : s.findRow r.tenant r.id = some r := by
  unfold findRow
  cases h : s.documents.find? fun q => q.id = r.id ∧ q.tenant = r.tenant with
  | none => simpa using List.find?_eq_none.mp h r hr
  | some q =>
    have hq : q.id = r.id ∧ q.tenant = r.tenant := by simpa using List.find?_some h
    rw [List.inj_on_of_nodup_map hs (List.mem_of_find?_eq_some h) hr hq.1]

namespace Rewrites

variable {f : DocumentRow → DocumentRow} {r : DocumentRow}

theorem documentIds (h : s.Rewrites d t f) :
    t.documents.map DocumentRow.id = s.documents.map DocumentRow.id := by
  rw [h.documents, List.map_map]
  refine List.map_congr_left fun r _ => ?_
  rw [Function.comp_apply]
  split
  · exact h.id r
  · rfl

theorem mem_of_not_matches (h : s.Rewrites d t f) (hr : r ∈ s.documents) (hother : ¬ r.Matches d) :
    r ∈ t.documents := by
  rw [h.documents]
  exact List.mem_map.mpr ⟨r, hr, if_neg hother⟩

theorem mem_of_matches (h : s.Rewrites d t f) (hr : r ∈ s.documents) (hr' : r.Matches d) :
    f r ∈ t.documents := by
  rw [h.documents]
  exact List.mem_map.mpr ⟨r, hr, if_pos hr'⟩

theorem findDocument (h : s.Rewrites d t f) (hs : s.Keyed) (hr : r ∈ s.documents)
    (hother : ¬ r.Matches d) : t.findDocument r.tenant r.id = s.findDocument r.tenant r.id := by
  have hrow := findRow_of_mem hs.documentIds hr
  have hrow' : t.findRow r.tenant r.id = some r :=
    findRow_of_mem (h.documentIds ▸ hs.documentIds) (h.mem_of_not_matches hr hother)
  have hlines : t.linesOf r.id = s.linesOf r.id := by simp only [linesOf, h.lines]
  simp only [Store.findDocument, hrow, hrow', hlines]

theorem tracks (h : s.Rewrites d t f) (hs : s.Keyed) (he : s.Tracks e) : t.Tracks e := by
  obtain ⟨r, hr, hid, htenant, hle, hsame⟩ := he
  by_cases hmatch : r.Matches d
  · have hversion : (f r).version = r.version + 1 := (h.version r).trans (hmatch.2.2 ▸ rfl)
    refine ⟨f r, h.mem_of_matches hr hmatch, (h.id r).trans hid, (h.tenant r).trans htenant, ?_, ?_⟩
    · omega
    · intro heq
      omega
  · refine ⟨r, h.mem_of_not_matches hr hmatch, hid, htenant, hle, fun heq => ?_⟩
    have hfind := h.findDocument hs hr hmatch
    rw [hid, htenant] at hfind
    exact hfind.trans (hsame heq)

theorem outdates (h : s.Rewrites d t f) (he : s.Outdates e) : t.Outdates e := by
  obtain ⟨r, hr, hid, hlt⟩ := he
  by_cases hmatch : r.Matches d
  · have hversion : (f r).version = r.version + 1 := (h.version r).trans (hmatch.2.2 ▸ rfl)
    refine ⟨f r, h.mem_of_matches hr hmatch, (h.id r).trans hid, ?_⟩
    omega
  · exact ⟨r, h.mem_of_not_matches hr hmatch, hid, hlt⟩

theorem outdates_self (h : s.Rewrites d t f) : t.Outdates d := by
  obtain ⟨r, hr, hmatch⟩ := h.matched
  refine ⟨f r, h.mem_of_matches hr hmatch, (h.id r).trans hmatch.1, ?_⟩
  rw [h.version r]
  exact Int.lt_succ d.version

theorem findDocument_self (h : s.Rewrites d t f) (hs : s.Keyed) (hd : s.Tracks d) :
    s.findDocument d.tenant d.id = .ok (some d) := by
  obtain ⟨r, hr, hid, htenant, hversion⟩ := h.matched
  obtain ⟨q, hq, hqid, -, -, hsame⟩ := hd
  rw [hs.document_eq hr hq (hid.trans hqid.symm)] at hversion
  exact hsame hversion

end Rewrites

theorem Lawful.reply_of_assignNumber (hs : s.Lawful) {a : Allocation} (hadmits : s.Admits a)
    (hyear : a.year ≠ 0) (e : Document) (expected : Int) :
    (∃ b, (s.perform (.assignNumber e expected a)).1 = .ok b) ∨
      (s.perform (.assignNumber e expected a)).1 = .error (.stale e.id) := by
  obtain ⟨c, u, hadvance⟩ := hadmits.exists_advance hyear hs
  cases hchange : u.changeDocument e expected fun r => r.numbered e c.number.formatted with
  | ok t =>
    have hok := assignNumber_eq_ok_iff.mpr ⟨c, u, hadvance, rfl, rfl, hchange⟩
    exact Or.inl ⟨_, congrArg (fun x => (s.commit x).1) hok⟩
  | error f =>
    obtain ⟨-, rfl⟩ := changeDocument_eq_error_iff.mp hchange
    have herror := assignNumber_eq_error_iff.mpr (Or.inr ⟨c, u, hadvance, hchange⟩)
    exact Or.inr (congrArg (fun x => (s.commit x).1) herror)

/-- A guarded write whose allocation, if any, can be made goes through or finds its document
changed. -/
theorem Lawful.reply_of_guards (hs : s.Lawful) (hstep : step.Guards d)
    (hadmits : ∀ a, Scene.allocation? step = some a → s.Admits a ∧ a.year ≠ 0) :
    (∃ a, (s.perform step).1 = .ok a) ∨ (s.perform step).1 = .error (.stale d.id) := by
  cases step with
  | assignNumber e expected a =>
    obtain ⟨hadmits, hyear⟩ := hadmits a rfl
    rw [← hstep.1]
    exact hs.reply_of_assignNumber hadmits hyear e expected
  | applyChange e expected c =>
    obtain ⟨hid, htenant, hexpected, hversion, hdocument⟩ := hstep
    rw [← hid]
    cases hchange : s.changeDocument e expected fun r => r.moved e with
    | ok u =>
      have hrewrites := rewrites_of_changeDocument hchange hid htenant hexpected
        fun r => ⟨rfl, rfl, hversion⟩
      obtain ⟨r, hr, hrid, -⟩ := hrewrites.outdates_self
      have hstored : ∃ r ∈ u.documents, r.id = c.document := ⟨r, hr, hrid.trans hdocument.symm⟩
      have hok := applyChange_eq_ok_iff.mpr ⟨u, hchange, hstored, rfl, rfl⟩
      exact Or.inl ⟨_, congrArg (fun x => (s.commit x).1) hok⟩
    | error f =>
      obtain ⟨-, rfl⟩ := changeDocument_eq_error_iff.mp hchange
      have herror : s.applyChange e expected c = .error (.stale e.id) := by
        simp only [Store.applyChange, bind, Except.bind, hchange]
      exact Or.inr (congrArg (fun x => (s.commit x).1) herror)
  | _ => exact hstep.elim

end Store

namespace Program

def conclude (g : step.Result → β) : step.Reply → Program (Except Failure β)
  | .ok a => done (.ok (g a))
  | .error f => done (.error f.toFailure)

/-- What is left of a call that is to make a write, with some attempts left. -/
def Writes (step : Step) (g : step.Result → β) (p : Program (Except Failure β)) : Prop :=
  ∃ n, p = (Service.retrying (ask step) n).bind (conclude g)

/-- What is left of a call that is to make a write once it has a lock. -/
def Waits (step : Step) (g : step.Result → β) (p : Program (Except Failure β)) : Prop :=
  ∃ stream next, p = request (.acquire stream) next ∧ Writes step g (next (.ok ())) ∧
    ∀ f, next (.error f) = done (.error f.toFailure)

def outcome (g : step.Result → β) : step.Reply × Store → Except Failure β × Store
  | (.ok a, t) => (.ok (g a), t)
  | (.error f, t) => (.error f.toFailure, t)

theorem run_retrying_bind
    (hfailed : ∀ f, (s.perform step).1 = .error f → (s.perform step).2 = s) (n : Nat)
    (k : step.Reply → Program β) :
    ((Service.retrying (ask step) n).bind k).run s
      = (k (s.perform step).1).run (s.perform step).2 := by
  induction n with
  | zero => rfl
  | succ n ih =>
    rw [Service.retrying_bind_succ, run_request]
    cases hreply : (s.perform step).1 with
    | ok a => rfl
    | error f =>
      cases f with
      | duplicate key =>
        rw [hreply, hfailed _ hreply] at ih
        rw [hfailed _ hreply]
        exact ih
      | _ => rfl

variable {g : step.Result → β} {p : Program (Except Failure β)}

theorem Writes.run (h : Writes step g p)
    (hfailed : ∀ f, (s.perform step).1 = .error f → (s.perform step).2 = s) :
    p.run s = outcome g (s.perform step) := by
  obtain ⟨n, rfl⟩ := h
  rw [run_retrying_bind hfailed]
  generalize s.perform step = reply
  obtain ⟨_ | _, _⟩ := reply <;> rfl

theorem Waits.run (h : Waits step g p)
    (hfailed : ∀ f, (s.perform step).1 = .error f → (s.perform step).2 = s) :
    p.run s = outcome g (s.perform step) := by
  obtain ⟨stream, next, rfl, hnext, -⟩ := h
  exact hnext.run hfailed

theorem run_of_guards (hstep : step.Guards d) (h : Writes step g p ∨ Waits step g p) :
    p.run s = outcome g (s.perform step) := by
  rcases h with h | h
  · exact h.run fun f hf => perform_of_guards_error hstep hf
  · exact h.run fun f hf => perform_of_guards_error hstep hf

theorem Writes.request (h : Writes step g p) :
    ∃ next, p = request step next ∧ (∀ a, next (.ok a) = done (.ok (g a))) ∧
      ∀ f, next (.error f) = done (.error f.toFailure) ∨ Writes step g (next (.error f)) := by
  obtain ⟨n, rfl⟩ := h
  cases n with
  | zero => exact ⟨conclude g, rfl, fun _ => rfl, fun _ => Or.inl rfl⟩
  | succ n =>
    refine ⟨_, Service.retrying_bind_succ step n (conclude g), fun _ => rfl, fun f => ?_⟩
    cases f with
    | duplicate key => exact Or.inr ⟨n, rfl⟩
    | _ => exact Or.inl rfl

end Program

namespace Step

def load? : (step : Step) → step.Reply → Option Document
  | .findDocument _ _, .ok found => found
  | _, _ => none

end Step

namespace Request

def target? : Request → Option Id
  | assignNumber id _ => some id
  | changeStatus id _ _ => some id
  | _ => none

end Request

namespace Service

open Docket.Action

variable {service : Service} {call : Call}

/-- What is left of a call once it has loaded a document: nothing, or a guarded write. -/
def Proceeds (d : Document) (p : Program (Except Failure β)) : Prop :=
  (∃ f, p = .done (.error f)) ∨
    ∃ (step : Step) (g : step.Result → β), step.Guards d ∧
      (Program.Writes step g p ∨ Program.Waits step g p)

/-- A program that loads a document at first and then proceeds from what it has loaded. -/
def Loads (id : Id) (p : Program (Except Failure β)) : Prop :=
  (∃ f, p = .done (.error f)) ∨
    ∃ tenant next, p = .request (.findDocument tenant id) next ∧
      (∀ reply, Step.load? (.findDocument tenant id) reply = none →
        ∃ f, next reply = .done (.error f)) ∧
      ∀ d : Document, Proceeds d (next (.ok (some d)))

theorem proceeds_compute_bind {α : Type} {x : Except Overflow α} {f : α → Action β}
    (hf : ∀ a, x = .ok a → Proceeds d (f a).run) : Proceeds d (compute x >>= f).run := by
  cases x with
  | ok a => exact hf a rfl
  | error o => exact Or.inl ⟨_, rfl⟩

theorem proceeds_ask_bind {f : step.Result → Action β} (hstep : step.Guards d)
    (g : step.Result → β) (hf : ∀ a, (f a).run = .done (.ok (g a))) :
    Proceeds d (Action.ask step >>= f).run := by
  refine Or.inr ⟨step, g, hstep, Or.inl ⟨0, ?_⟩⟩
  rw [run_ask_bind]
  change Program.request _ _ = Program.request _ _
  congr 1
  funext reply
  cases reply with
  | ok a => exact hf a
  | error e => rfl

theorem proceeds_attempt_bind {f : step.Result → Action β} {stream : Stream}
    (hstep : step.Guards d) (g : step.Result → β) (hf : ∀ a, (f a).run = .done (.ok (g a))) :
    Proceeds d (Action.ask (.acquire stream) >>= fun _ => service.attempt step >>= f).run := by
  refine Or.inr ⟨step, g, hstep, Or.inr ⟨stream, _, run_ask_bind _ _, ?_, fun e => rfl⟩⟩
  refine ⟨service.attempts - 1, (run_attempt_bind service step f).trans ?_⟩
  congr 1
  funext reply
  cases reply with
  | ok a => exact hf a
  | error e => rfl

theorem loads_bind {id : Id} {k : Id → Document → Action β}
    (hk : ∀ tenant d, Proceeds d (k tenant d).run) :
    Loads id (scope call >>= fun tenant => start call >>= fun _ =>
      load tenant id >>= k tenant).run := by
  unfold scope
  cases call.caller.tenant with
  | none => exact Or.inl ⟨_, rfl⟩
  | some tenant =>
    unfold start
    cases call.caller.cancelled with
    | true => exact Or.inl ⟨_, rfl⟩
    | false =>
      refine Or.inr ⟨tenant, _, rfl, fun reply hreply => ?_, fun d => hk tenant d⟩
      obtain f | _ | d := reply
      · exact ⟨_, rfl⟩
      · exact ⟨_, rfl⟩
      · cases hreply

/-- A call that is to change a document makes one guarded write at most. -/
theorem loads_serve (service : Service) (call : Call) {request : Request} {id : Id}
    (h : request.target? = some id) : Loads id (service.serve call request).run := by
  cases request with
  | assignNumber document series =>
    obtain rfl := Option.some.inj h
    refine loads_bind fun tenant d => ?_
    cases checkUnnumbered d with
    | error clash => exact Or.inl ⟨_, rfl⟩
    | ok =>
      cases numberingType d with
      | error violation => exact Or.inl ⟨_, rfl⟩
      | ok documentType =>
        refine proceeds_compute_bind fun version hv => ?_
        exact proceeds_attempt_bind ⟨rfl, rfl, rfl, eq_of_succ? hv⟩ _ fun a => rfl
  | changeStatus document target reason =>
    obtain rfl := Option.some.inj h
    refine loads_bind fun tenant d => proceeds_compute_bind fun verdict _ => ?_
    cases verdict with
    | rejected objection => exact Or.inl ⟨_, rfl⟩
    | valid =>
      refine proceeds_compute_bind fun version hv => ?_
      exact proceeds_ask_bind ⟨rfl, rfl, rfl, eq_of_succ? hv, rfl⟩ _ fun a => rfl
  | _ => cases h

end Service

end Docket
