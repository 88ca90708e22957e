import Docket.Proofs.Documents
import Docket.Proofs.Serial

/-! # Revisions of documents

Three kinds of calls change documents: one adds a draft, one gives a document its number, and one
changes a status and records that. Each does so with one write, and whatever other calls do
meanwhile, what it writes follows from the document as it is stored at that time.
-/

namespace Docket

open Store Issuing Simulation

namespace Request

def revises : Request → Bool
  | createDocument _ => true
  | assignNumber _ _ => true
  | changeStatus _ _ _ => true
  | _ => false

end Request

namespace Service

/-- A document once a call has given it a number. -/
def numbered (service : Service) (call : Call) (d : Document) (number : String) : Document :=
  { d with number := some number, version := d.version + 1, updated := service.stamp call }

end Service

variable {service : Service} {call : Call} {s t : Store} {d : Document}

/-- What a call that changes documents does to them. -/
inductive Store.Revises (s : Store) (service : Service) (call : Call) : Request → Store → Prop
  | created {new : NewDocument} {tenant : Id} {saved : Document} {t : Store}
      (inserted : s.insertDocument (service.newDocument call tenant new) = .ok (saved, t)) :
      Revises s service call (.createDocument new) t
  | numbered {series number : String} {d : Document} {t : Store}
      (unnumbered : Service.checkUnnumbered d = .ok ())
      (replaces : s.Replaces d (service.numbered call d number) t)
      (changes : t.changes = s.changes) : Revises s service call (.assignNumber d.id series) t
  | moved {target : Status} {reason : Option String} {d : Document} {t : Store}
      (valid : d.checkChange target = .ok .valid)
      (replaces : s.Replaces d (service.changed call d target (d.version + 1)) t)
      (changes : t.changes = s.changes
        ++ [.encode d.tenant (service.change call d target reason (d.version + 1))]) :
      Revises s service call (.changeStatus d.id target reason) t

namespace Store

theorem Holds.replaces_of_applyChange (hd : s.Holds d) (hs : s.Keyed) {target : Status}
    {reason : Option String} {saved : Document}
    (h : s.applyChange (service.changed call d target (d.version + 1)) d.version
      (service.change call d target reason (d.version + 1)) = .ok (saved, t)) :
    saved = service.changed call d target (d.version + 1) ∧ s.Replaces d saved t ∧
      t.changes = s.changes
        ++ [.encode d.tenant (service.change call d target reason (d.version + 1))] := by
  obtain ⟨u, hu, -, rfl, rfl⟩ := applyChange_eq_ok_iff.mp h
  have hreplaces := hd.replaces hs hu rfl rfl rfl rfl
  have hchanges : u.changes = s.changes := by rw [(changeDocument_eq_ok_iff.mp hu).2]
  exact ⟨rfl, hreplaces.of_tables rfl rfl rfl rfl, hchanges ▸ rfl⟩

theorem Holds.replaces_of_assignNumber (hd : s.Holds d) (hs : s.Lawful) {a : Allocation}
    {saved : Document × Number}
    (h : s.assignNumber { d with version := d.version + 1, updated := service.stamp call } d.version
      a = .ok (saved, t)) :
    ∃ c u, s.Advances a c u ∧ saved = (service.numbered call d c.number.formatted, c.number) ∧
      s.Replaces d saved.1 t ∧ t.counters = u.counters ∧ t.changes = s.changes := by
  obtain ⟨c, u, hadvance, hnumber, hsaved, hu⟩ := assignNumber_eq_ok_iff.mp h
  obtain rfl : saved = (service.numbered call d c.number.formatted, c.number) :=
    Prod.ext (hnumber ▸ hsaved) hnumber
  have hadvances := hs.advance_eq_ok_iff.mp hadvance
  have hagrees : s.Agrees u := hadvances.tables ▸ agrees_counters s u.counters
  have hreplaces := (hagrees.holds_iff.mpr hd).replaces (hadvances.lawful hs).toKeyed
    (e := service.numbered call d c.number.formatted) hu rfl rfl rfl rfl
  obtain ⟨-, rfl⟩ := changeDocument_eq_ok_iff.mp hu
  exact ⟨c, u, hadvances, rfl, hreplaces.of_tables hagrees.documents hagrees.lines rfl rfl, rfl,
    hagrees.changes⟩

end Store

theorem revises_of_changeStatus (hs : s.Lawful) {id : Id} {target : Status} {reason : Option String}
    {outcome : Outcome Document}
    (h : (service.changeStatus call id target reason).Succeeds s outcome t) :
    s.Revises service call (.changeStatus id target reason) t := by
  obtain ⟨tenant, d, -, hfind, hvalid, saved, hchange, -⟩ := Service.changeStatus_succeeds h
  obtain ⟨rfl, rfl, hheld⟩ := hs.findDocument_eq_some_iff.mp hfind
  obtain ⟨rfl, hreplaces, hchanges⟩ := hheld.replaces_of_applyChange hs.toKeyed hchange
  exact .moved hvalid hreplaces hchanges

theorem revises_of_assignNumber (hs : s.Lawful) {id : Id} {series : String}
    {outcome : Outcome Document}
    (h : (service.assignNumber call id series).Succeeds s outcome t) :
    s.Revises service call (.assignNumber id series) t := by
  obtain ⟨tenant, d, documentType, -, hfind, hunnumbered, -, saved, hassign, -⟩ :=
    Service.assignNumber_succeeds h
  obtain ⟨rfl, rfl, hheld⟩ := hs.findDocument_eq_some_iff.mp hfind
  obtain ⟨c, u, -, rfl, hreplaces, -, hchanges⟩ := hheld.replaces_of_assignNumber hs hassign
  exact .numbered hunnumbered hreplaces hchanges

/-- A call that has changed a document when run on its own has made a revision. -/
theorem revises_of_run (hs : s.Lawful) {job : Job} {id : Id}
    (htarget : job.request.target? = some id) {outcome : Outcome job.request.Answer}
    (h : (job.program service).run s = (.ok outcome, t)) :
    s.Revises service job.call job.request t := by
  obtain ⟨call, request⟩ := job
  cases request with
  | changeStatus => exact revises_of_changeStatus hs h
  | assignNumber => exact revises_of_assignNumber hs h
  | _ => cases htarget

/-- What an exchange of a call comes to for documents: nothing, or the one revision that the call
makes. -/
inductive Exchange.Revision (service : Service) (job : Job) (e : Exchange) : Prop
  | none (quiet : job.request.revises = true → e.commits = false)
      (agrees : e.before.Agrees e.after)
  | some (commits : e.commits = true)
      (revises : e.before.Revises service job.call job.request e.after)

theorem Request.asks_insertDocument {request : Request}
    (hasks : request.Asks service call (.insertDocument d)) :
    ∃ new tenant, request = .createDocument new ∧ d = service.newDocument call tenant new := by
  cases request with
  | createDocument new =>
    obtain ⟨tenant, rfl⟩ := hasks
    exact ⟨new, tenant, rfl, rfl⟩
  | _ => exact hasks.elim

theorem Request.revises_eq_false {request : Request} {step : Step}
    (htarget : request.target? = none) (hasks : request.Asks service call step)
    (hstep : step.changesDocuments = false) : request.revises = false := by
  cases request with
  | createDocument new =>
    cases step with
    | insertDocument => cases hstep
    | _ => exact hasks.elim
  | assignNumber | changeStatus => cases htarget
  | _ => rfl

theorem Store.Revises.inserted {request : Request} (h : s.Revises service call request t)
    (htarget : request.target? = none) : ∃ e saved, s.insertDocument e = .ok (saved, t) := by
  cases h with
  | created inserted => exact ⟨_, _, inserted⟩
  | numbered | moved => cases htarget

theorem revision_of_asks (hs : s.Keyed) {job : Job} (htarget : job.request.target? = none)
    {step : Step} {reply : step.Reply} (hasks : job.request.Asks service job.call step)
    (hreplies : s.Replies step reply t) :
    Exchange.Revision service job ⟨s, step, reply, t⟩ := by
  cases step with
  | insertDocument d =>
    obtain ⟨new, tenant, hrequest, rfl⟩ := Request.asks_insertDocument hasks
    obtain ⟨call, request⟩ := job
    subst hrequest
    cases reply with
    | ok saved => exact .some rfl (.created (commit_eq_ok_iff.mp hreplies.perform_eq))
    | error f =>
      obtain rfl := hreplies.of_error fun f hf => (commit_error hf).2
      exact .none (fun _ => rfl) (.refl _)
  | assignNumber e expected a =>
    obtain ⟨call, request⟩ := job
    cases request with
    | assignNumber id series => cases htarget
    | _ => exact hasks.elim
  | applyChange e expected c =>
    obtain ⟨call, request⟩ := job
    cases request with
    | changeStatus id target reason => cases htarget
    | _ => exact hasks.elim
  | _ =>
    have hquiet := Request.revises_eq_false htarget hasks rfl
    exact .none (fun hrevises => absurd (hquiet.symm.trans hrevises) Bool.false_ne_true)
      (hreplies.agrees hs rfl)

namespace Store

theorem Agrees.tracks (h : s.Agrees t) (hd : s.Tracks d) : t.Tracks d := by
  obtain ⟨r, hr, hid, htenant, hle, hsame⟩ := hd
  exact ⟨r, h.documents.symm ▸ hr, hid, htenant, hle, fun hversion =>
    h.findDocument.trans (hsame hversion)⟩

theorem Agrees.outdates (h : s.Agrees t) (hd : s.Outdates d) : t.Outdates d := by
  obtain ⟨r, hr, hr'⟩ := hd
  exact ⟨r, h.documents.symm ▸ hr, hr'⟩

variable {e saved : Document}

theorem tracks_of_insertDocument (hs : s.Keyed) (ht : t.Keyed)
    (h : s.insertDocument e = .ok (saved, t)) (hd : s.Tracks d) : t.Tracks d := by
  obtain ⟨r, hr, hid, htenant, hle, hsame⟩ := hd
  refine ⟨r, ?_, hid, htenant, hle, fun hversion => ?_⟩
  · obtain ⟨-, -, rfl⟩ := insertDocument_eq_ok_iff.mp h
    exact List.mem_append_left _ hr
  · obtain ⟨-, -, hheld⟩ := hs.findDocument_eq_some_iff.mp (hsame hversion)
    exact ht.findDocument_eq_some_iff.mpr ⟨rfl, rfl, hheld.inserted h⟩

theorem outdates_of_insertDocument (h : s.insertDocument e = .ok (saved, t)) (hd : s.Outdates d) :
    t.Outdates d := by
  obtain ⟨r, hr, hr'⟩ := hd
  obtain ⟨-, -, rfl⟩ := insertDocument_eq_ok_iff.mp h
  exact ⟨r, List.mem_append_left _ hr, hr'⟩

end Store

open Course

variable {ι : Type} [DecidableEq ι] {jobs : ι → Job} {σ τ : Course ι fun i => (jobs i).Answer}

/-- Calls of any kind that are under way; those that start from a stored document are in one of
their phases. -/
structure Staged (service : Service) (jobs : ι → Job) (σ : Course ι fun i => (jobs i).Answer) :
    Prop extends Conducted service jobs σ where
  lawful : σ.store.Lawful
  phase : ∀ i id, (jobs i).request.target? = some id → Phase service jobs σ i

theorem staged_start (hs : s.Lawful) :
    Staged service jobs (.start s fun i => (jobs i).program service) :=
  { conducted_start s with
    lawful := hs
    phase := fun _ _ _ => .idle rfl rfl }

section Reply

variable {i : ι} {step : Step} {next : step.Reply → Program (jobs i).Answer} {reply : step.Reply}

/-- The next exchange of a call revises documents or leaves them alone; in either case the other
calls stay in their phases. -/
theorem Staged.revision (hσ : Staged service jobs σ) (hrest : σ.rest i = .request step next)
    (hreplies : σ.store.Replies step reply t) :
    Exchange.Revision service (jobs i) ⟨σ.store, step, reply, t⟩ ∧
      (∀ d, σ.store.Tracks d → t.Tracks d) ∧ (∀ d, σ.store.Outdates d → t.Outdates d) ∧
      ∀ id, (jobs i).request.target? = some id →
        Phase service jobs (σ.reply i ⟨σ.store, step, reply, t⟩ (next reply)) i := by
  cases htarget : (jobs i).request.target? with
  | some id =>
    cases (hσ.phase i id htarget).furthers hσ.lawful htarget hrest hreplies with
    | keeps commits after phase =>
      obtain rfl : t = σ.store := after
      exact ⟨.none (fun _ => commits) (.refl _), fun _ h => h, fun _ h => h, fun _ _ => phase⟩
    | commits commits loads rewrites current alone answer phase =>
      exact ⟨.some commits (revises_of_run hσ.lawful htarget alone),
        fun _ h => rewrites.tracks hσ.lawful.toKeyed h, fun _ h => rewrites.outdates h,
        fun _ _ => phase⟩
  | none =>
    have hrevision := revision_of_asks hσ.lawful.toKeyed htarget (hσ.asks hrest) hreplies
    refine ⟨hrevision, ?_⟩
    cases hrevision with
    | none quiet agrees =>
      exact ⟨fun _ h => agrees.tracks h, fun _ h => agrees.outdates h, nofun⟩
    | some commits revises =>
      obtain ⟨e, saved, hinsert⟩ := revises.inserted htarget
      have hlawful := (hreplies.lawful hσ.lawful).toKeyed
      exact ⟨fun _ h => tracks_of_insertDocument hσ.lawful.toKeyed hlawful hinsert h,
        fun _ h => outdates_of_insertDocument hinsert h, nofun⟩

theorem Staged.answered (hσ : Staged service jobs σ) (hrest : σ.rest i = .request step next)
    (hreplies : σ.store.Replies step reply t) :
    Staged service jobs (σ.reply i ⟨σ.store, step, reply, t⟩ (next reply)) := by
  obtain ⟨-, htracks, houtdates, hphase⟩ := hσ.revision hrest hreplies
  refine ⟨hσ.toConducted.move (.mk hrest hreplies), hreplies.lawful hσ.lawful, fun j id hj => ?_⟩
  by_cases hji : j = i
  · subst hji
    exact hphase id hj
  · exact (hσ.phase j id hj).of_other hji htracks houtdates

end Reply

theorem Staged.move (h : Move σ τ) (hσ : Staged service jobs σ) : Staged service jobs τ := by
  obtain ⟨hrest, hreplies⟩ := h
  exact hσ.answered hrest hreplies

theorem staged_of_reaches (h : Reaches σ τ) (hσ : Staged service jobs σ) :
    Staged service jobs τ := by
  induction h with
  | refl => exact hσ
  | tail _ h ih => exact ih.move h

end Docket
