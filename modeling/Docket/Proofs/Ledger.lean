import Docket.Proofs.Revision
import Docket.Proofs.Rules

/-! # The status history as a ledger

The recorded changes of a document lead from a draft to its status, one after another, and account
for its version together with its number. Each of them was recorded by one call that succeeded, and
none is ever changed or removed.
-/

namespace Docket

open Store Simulation

/-- Recorded changes that lead from one status to another, each allowed by the table of changes. -/
inductive Leads : Status → List ChangeRow → Status → Prop
  | nil (status : Status) : Leads status [] status
  | cons {source middle target : Status} {c : ChangeRow} {cs : List ChangeRow}
      (begins : c.source = source.text) (ends : c.target = middle.text)
      (allowed : source.canChangeTo middle = true) (later : Leads middle cs target) :
      Leads source (c :: cs) target

theorem Leads.concat {source middle target : Status} {c : ChangeRow} {cs : List ChangeRow}
    (h : Leads source cs middle) (hsource : c.source = middle.text)
    (htarget : c.target = target.text) (hallowed : middle.canChangeTo target = true) :
    Leads source (cs ++ [c]) target := by
  induction h with
  | nil => exact .cons hsource htarget hallowed (.nil target)
  | cons begins ends allowed later ih => exact .cons begins ends allowed (ih hsource hallowed)

/-- Changes that account for a document: they lead from a draft to its status, and with its number
they explain its version. -/
structure Faithful (changes : List ChangeRow) (r : DocumentRow) : Prop where
  increasing : changes.Pairwise fun a b => a.version < b.version
  versions : ∀ c ∈ changes, 2 ≤ c.version ∧ c.version ≤ r.version
  tenant : ∀ c ∈ changes, c.tenant = r.tenant
  leads : ∃ status, r.status = status.text ∧ Leads .draft changes status
  version : r.version = 1 + changes.length + if r.number.isSome then 1 else 0

namespace Faithful

variable {service : Service} {call : Call} {d : Document} {changes : List ChangeRow}

theorem nil {r : DocumentRow} (hstatus : r.status = Status.draft.text) (hnumber : r.number = none)
    (hversion : r.version = 1) : Faithful [] r :=
  { increasing := .nil
    versions := fun _ hc => absurd hc List.not_mem_nil
    tenant := fun _ hc => absurd hc List.not_mem_nil
    leads := ⟨.draft, hstatus, .nil .draft⟩
    version := by rw [hversion, hnumber]; rfl }

theorem one_le_version {r : DocumentRow} (h : Faithful changes r) : 1 ≤ r.version := by
  rw [h.version]
  split <;> omega

theorem numbered (h : Faithful changes (.encode d)) (hnumber : d.number = none)
    (number : String) : Faithful changes (.encode (service.numbered call d number)) := by
  have hversion : d.version = 1 + changes.length + if d.number.isSome then 1 else 0 := h.version
  rw [hnumber] at hversion
  refine ⟨h.increasing, fun c hc => ?_, h.tenant, h.leads, ?_⟩
  · obtain ⟨hmin, hmax⟩ := h.versions c hc
    exact ⟨hmin, Int.le_trans hmax (Int.le_add_one Int.le_rfl)⟩
  · change d.version + 1 = 1 + (changes.length : Int) + 1
    rw [hversion]
    rfl

theorem moved (h : Faithful changes (.encode d)) {target : Status}
    (hallowed : d.status.canChangeTo target = true) (reason : Option String) :
    Faithful
      (changes ++ [.encode d.tenant (service.change call d target reason (d.version + 1))])
      (.encode (service.changed call d target (d.version + 1))) := by
  have hpositive : 1 ≤ d.version := h.one_le_version
  have hversion : d.version = 1 + changes.length + if d.number.isSome then 1 else 0 := h.version
  constructor
  case increasing =>
    refine List.pairwise_append.mpr ⟨h.increasing, List.pairwise_singleton _ _, ?_⟩
    intro a ha b hb
    obtain rfl := List.mem_singleton.mp hb
    exact Int.lt_add_one_of_le (h.versions a ha).2
  case versions =>
    intro c hc
    rcases List.mem_append.mp hc with hc | hc
    · obtain ⟨hmin, hmax⟩ := h.versions c hc
      exact ⟨hmin, Int.le_trans hmax (Int.le_add_one Int.le_rfl)⟩
    · obtain rfl := List.mem_singleton.mp hc
      exact ⟨Int.add_le_add_right hpositive 1, Int.le_rfl⟩
  case tenant =>
    intro c hc
    rcases List.mem_append.mp hc with hc | hc
    · exact h.tenant c hc
    · obtain rfl := List.mem_singleton.mp hc
      rfl
  case leads =>
    obtain ⟨status, hstatus, hleads⟩ := h.leads
    obtain rfl : d.status = status := Status.text_injective hstatus
    exact ⟨target, rfl, hleads.concat rfl rfl hallowed⟩
  case version =>
    change d.version + 1 = 1 + ((changes ++ [_]).length : Int) + if d.number.isSome then 1 else 0
    rw [List.length_append, List.length_singleton]
    omega

end Faithful

namespace Store

def recorded (s : Store) (id : Id) : List ChangeRow := s.changes.filter fun c => c.document = id

/-- Recorded changes of a document by version. -/
def history (s : Store) (id : Id) : List ChangeRow :=
  (s.recorded id).mergeSort fun a b => decide (a.version ≤ b.version)

/-- The recorded changes account for each document, and are of stored documents. -/
structure Accounted (s : Store) : Prop where
  faithful : ∀ r ∈ s.documents, Faithful (s.recorded r.id) r
  stored : ∀ c ∈ s.changes, ∃ r ∈ s.documents, r.id = c.document

variable {s t : Store} {service : Service} {call : Call} {request : Request}

theorem accounted_empty : Accounted {} :=
  ⟨fun _ hr => absurd hr List.not_mem_nil, fun _ hc => absurd hc List.not_mem_nil⟩

theorem recorded_congr (h : t.changes = s.changes) (id : Id) : t.recorded id = s.recorded id := by
  rw [recorded, h, recorded]

theorem history_eq_recorded {id : Id}
    (h : (s.recorded id).Pairwise fun a b => a.version < b.version) :
    s.history id = s.recorded id :=
  List.mergeSort_of_pairwise (h.imp fun hlt => decide_eq_true (Int.le_of_lt hlt))

theorem Accounted.of_agrees (hs : s.Accounted) (h : s.Agrees t) : t.Accounted := by
  constructor
  · intro r hr
    rw [recorded_congr h.changes]
    exact hs.faithful r (h.documents ▸ hr)
  · intro c hc
    rw [h.documents]
    exact hs.stored c (h.changes ▸ hc)

theorem recorded_of_forall_ne {id : Id} (h : ∀ c ∈ s.changes, c.document ≠ id) :
    s.recorded id = [] :=
  List.filter_eq_nil_iff.mpr fun c hc => decide_eq_false (h c hc) ▸ Bool.false_ne_true

theorem Accounted.of_created (hs : s.Accounted) {new : NewDocument} {tenant : Id} {saved : Document}
    (h : s.insertDocument (service.newDocument call tenant new) = .ok (saved, t)) :
    t.Accounted := by
  obtain ⟨hnew, -, rfl⟩ := insertDocument_eq_ok_iff.mp h
  constructor
  · intro r hr
    rcases List.mem_append.mp hr with hr | hr
    · exact hs.faithful r hr
    · obtain rfl := List.mem_singleton.mp hr
      have hnone : ∀ c ∈ s.changes, c.document ≠ call.fresh := by
        intro c hc hid
        obtain ⟨r, hr, hrid⟩ := hs.stored c hc
        exact hnew r hr (hrid.trans hid)
      have hrecorded : s.recorded call.fresh = [] := recorded_of_forall_ne hnone
      change Faithful (s.recorded call.fresh) _
      rw [hrecorded]
      exact .nil rfl rfl rfl
  · intro c hc
    obtain ⟨r, hr, hid⟩ := hs.stored c hc
    exact ⟨r, List.mem_append_left _ hr, hid⟩

section Replacement

variable {d e : Document}

theorem Accounted.stored_of_replaces (hs : s.Accounted) (h : s.Replaces d e t) {c : ChangeRow}
    (hc : c ∈ s.changes) : ∃ r ∈ t.documents, r.id = c.document := by
  obtain ⟨r, hr, hid⟩ := hs.stored c hc
  by_cases hrow : r.id = d.id
  · exact ⟨_, h.mem_documents.mpr (Or.inl rfl), h.id.trans (hrow.symm.trans hid)⟩
  · exact ⟨r, h.mem_documents.mpr (Or.inr ⟨hr, hrow⟩), hid⟩

theorem Accounted.of_numbered (hs : s.Accounted) {number : String}
    (hunnumbered : Service.checkUnnumbered d = .ok ())
    (h : s.Replaces d (service.numbered call d number) t) (hchanges : t.changes = s.changes) :
    t.Accounted := by
  have hnumber := (Service.checkUnnumbered_eq_ok_iff.mp hunnumbered).2
  constructor
  · intro r hr
    rw [recorded_congr hchanges]
    rcases h.mem_documents.mp hr with rfl | ⟨hr, -⟩
    · exact (hs.faithful _ h.held.row).numbered hnumber number
    · exact hs.faithful r hr
  · exact fun c hc => hs.stored_of_replaces h (hchanges ▸ hc)

theorem recorded_append_self {c : ChangeRow} (h : t.changes = s.changes ++ [c]) {id : Id}
    (hid : c.document = id) : t.recorded id = s.recorded id ++ [c] := by
  rw [recorded, h, List.filter_append]
  simp [recorded, hid]

theorem recorded_append_of_ne {c : ChangeRow} (h : t.changes = s.changes ++ [c]) {id : Id}
    (hid : c.document ≠ id) : t.recorded id = s.recorded id := by
  rw [recorded, h, List.filter_append]
  simp [recorded, hid]

theorem Accounted.of_moved (hs : s.Accounted) {target : Status} {reason : Option String}
    (hvalid : d.checkChange target = .ok .valid)
    (h : s.Replaces d (service.changed call d target (d.version + 1)) t)
    (hchanges : t.changes = s.changes
      ++ [.encode d.tenant (service.change call d target reason (d.version + 1))]) :
    t.Accounted := by
  have hallowed := Document.canChangeTo_of_valid hvalid
  constructor
  · intro r hr
    rcases h.mem_documents.mp hr with rfl | ⟨hr, hid⟩
    · have hrecorded : t.recorded d.id = _ := recorded_append_self hchanges rfl
      change Faithful (t.recorded d.id) _
      rw [hrecorded]
      exact (hs.faithful _ h.held.row).moved hallowed reason
    · rw [recorded_append_of_ne hchanges hid.symm]
      exact hs.faithful r hr
  · intro c hc
    rw [hchanges] at hc
    rcases List.mem_append.mp hc with hc | hc
    · exact hs.stored_of_replaces h hc
    · obtain rfl := List.mem_singleton.mp hc
      exact ⟨_, h.mem_documents.mpr (Or.inl rfl), rfl⟩

end Replacement

/-- Every revision leaves the changes accounting for the documents. -/
theorem Accounted.of_revises (hs : s.Accounted) (h : s.Revises service call request t) :
    t.Accounted := by
  cases h with
  | created inserted => exact hs.of_created inserted
  | numbered unnumbered replaces changes => exact hs.of_numbered unnumbered replaces changes
  | moved valid replaces changes => exact hs.of_moved valid replaces changes

end Store

namespace Request

def changesStatus : Request → Bool
  | changeStatus _ _ _ => true
  | _ => false

end Request

open Course

variable {ι : Type} [DecidableEq ι] {service : Service} {jobs : ι → Job}
  {σ τ : Course ι fun i => (jobs i).Answer}

/-- A recorded change is the one that a call made, of a document as that call found it. -/
def Records (service : Service) (job : Job) (c : ChangeRow) : Prop :=
  ∃ (d : Document) (target : Status) (reason : Option String),
    job.request = .changeStatus d.id target reason ∧
      c = .encode d.tenant (service.change job.call d target reason (d.version + 1))

/-- The calls that have changed a status, in that order. -/
def writers (jobs : ι → Job) (σ : Course ι fun i => (jobs i).Answer) : List ι :=
  σ.committed.filter fun i => (jobs i).request.changesStatus

/-- What is recorded accounts for the documents and for the calls that have changed a status. -/
structure Balanced (service : Service) (jobs : ι → Job) (σ : Course ι fun i => (jobs i).Answer) :
    Prop where
  staged : Staged service jobs σ
  accounted : σ.store.Accounted
  records : List.Forall₂ (fun i c => Records service (jobs i) c) (writers jobs σ) σ.store.changes

theorem balanced_start :
    Balanced service jobs (.start {} fun i => (jobs i).program service) :=
  { staged := staged_start lawful_empty
    accounted := accounted_empty
    records := .nil }

/-- A change of status is recorded once, by the exchange that makes it, and nothing else is. -/
inductive Exchange.Recording (service : Service) (job : Job) (e : Exchange) : Prop
  | none (quiet : ¬ (e.commits = true ∧ job.request.changesStatus = true))
      (changes : e.after.changes = e.before.changes)
  | some {c : ChangeRow} (commits : e.commits = true)
      (request : job.request.changesStatus = true) (records : Records service job c)
      (changes : e.after.changes = e.before.changes ++ [c])

theorem Request.revises_of_changesStatus {request : Request} (h : request.changesStatus = true) :
    request.revises = true := by
  cases request with
  | changeStatus => rfl
  | _ => cases h

theorem Exchange.Revision.recording {e : Exchange} {job : Job} (h : e.Revision service job) :
    e.Recording service job := by
  cases h with
  | none quiet agrees =>
    refine .none (fun ⟨hcommits, hrequest⟩ => ?_) agrees.changes
    have hquiet := quiet (Request.revises_of_changesStatus hrequest)
    exact absurd (hquiet.symm.trans hcommits) Bool.false_ne_true
  | some commits revises =>
    obtain ⟨before, step, reply, after⟩ := e
    obtain ⟨call, request⟩ := job
    cases revises with
    | created inserted =>
      obtain ⟨-, -, hafter⟩ := insertDocument_eq_ok_iff.mp inserted
      have hchanges := congrArg Store.changes hafter
      exact .none (fun h => absurd h.2 Bool.false_ne_true) hchanges
    | numbered unnumbered replaces changes =>
      exact .none (fun h => absurd h.2 Bool.false_ne_true) changes
    | moved valid replaces changes =>
      exact .some commits rfl ⟨_, _, _, rfl, rfl⟩ changes

theorem Exchange.Recording.changes_prefix {e : Exchange} {job : Job}
    (h : e.Recording service job) : e.before.changes <+: e.after.changes := by
  cases h with
  | none quiet changes => exact changes ▸ List.prefix_rfl
  | some commits request records changes => exact changes ▸ List.prefix_append _ _

theorem Store.Accounted.of_revision {e : Exchange} {job : Job} (hs : e.before.Accounted)
    (h : e.Revision service job) : e.after.Accounted := by
  cases h with
  | none quiet agrees => exact hs.of_agrees agrees
  | some commits revises => exact hs.of_revises revises

section Reply

variable {i : ι} {e : Exchange} {p : Program (jobs i).Answer}

theorem writers_reply_of_quiet (h : ¬ (e.commits = true ∧ (jobs i).request.changesStatus = true)) :
    writers jobs (σ.reply i e p) = writers jobs σ := by
  rw [writers, committed_reply]
  split
  · next hcommits =>
    have hrequest : (jobs i).request.changesStatus = false :=
      Bool.eq_false_iff.mpr fun hrequest => h ⟨hcommits, hrequest⟩
    simp [writers, hrequest]
  · rfl

theorem writers_reply_of_commits (hcommits : e.commits = true)
    (hrequest : (jobs i).request.changesStatus = true) :
    writers jobs (σ.reply i e p) = writers jobs σ ++ [i] := by
  rw [writers, committed_reply, if_pos hcommits]
  simp [writers, hrequest]

theorem records_reply (h : e.Recording service (jobs i))
    (hrecords : List.Forall₂ (fun i c => Records service (jobs i) c) (writers jobs σ)
      e.before.changes) :
    List.Forall₂ (fun i c => Records service (jobs i) c) (writers jobs (σ.reply i e p))
      e.after.changes := by
  cases h with
  | none quiet changes =>
    rw [writers_reply_of_quiet quiet, changes]
    exact hrecords
  | some commits request records changes =>
    rw [writers_reply_of_commits commits request, changes]
    exact List.rel_append hrecords (.cons records .nil)

end Reply

theorem Balanced.move (h : Move σ τ) (hσ : Balanced service jobs σ) : Balanced service jobs τ := by
  have hstaged := hσ.staged.move h
  obtain ⟨hrest, hreplies⟩ := h
  obtain ⟨hrevision, -⟩ := hσ.staged.revision hrest hreplies
  exact
    { staged := hstaged
      accounted := Accounted.of_revision hσ.accounted hrevision
      records := records_reply hrevision.recording hσ.records }

theorem changes_prefix_of_reaches (h : Reaches σ τ) (hσ : Staged service jobs σ) :
    σ.store.changes <+: τ.store.changes := by
  induction h with
  | refl => exact List.prefix_rfl
  | tail h hmove ih =>
    have hstaged := staged_of_reaches h hσ
    obtain ⟨hrest, hreplies⟩ := hmove
    obtain ⟨hrevision, -⟩ := hstaged.revision hrest hreplies
    exact ih.trans hrevision.recording.changes_prefix

theorem balanced_of_reaches (h : Reaches (.start {} fun i => (jobs i).program service) σ) :
    Balanced service jobs σ := by
  induction h with
  | refl => exact balanced_start
  | tail _ hmove ih => exact ih.move hmove

theorem Request.exists_target_of_changesStatus {request : Request}
    (h : request.changesStatus = true) : ∃ id, request.target? = some id := by
  cases request with
  | changeStatus id => exact ⟨id, rfl⟩
  | _ => cases h

theorem Staged.nodup_writers (hσ : Staged service jobs σ) : (writers jobs σ).Nodup := by
  rw [List.nodup_iff_count_le_one]
  intro i
  by_cases hi : i ∈ writers jobs σ
  · obtain ⟨hcommitted, hrequest⟩ := List.mem_filter.mp hi
    obtain ⟨id, htarget⟩ := Request.exists_target_of_changesStatus hrequest
    obtain ⟨_, _, -, honce, -⟩ := (hσ.phase i id htarget).of_mem_committed hcommitted
    have hcount := List.count_filter (p := fun i => (jobs i).request.changesStatus)
      (l := σ.committed) hrequest
    exact Nat.le_of_eq (hcount.trans (count_committed.trans honce))
  · rw [List.count_eq_zero_of_not_mem hi]
    exact Nat.zero_le 1

/-- The calls that have changed a status are those that were to do so and succeeded. -/
theorem Staged.mem_writers_iff (hσ : Staged service jobs σ) {i : ι} :
    i ∈ writers jobs σ ↔
      (jobs i).request.changesStatus = true ∧ ∃ outcome, σ.rest i = .done (.ok outcome) := by
  rw [writers, List.mem_filter]
  constructor
  · rintro ⟨hcommitted, hrequest⟩
    obtain ⟨id, htarget⟩ := Request.exists_target_of_changesStatus hrequest
    obtain ⟨_, outcome, -, -, hdone, -⟩ := (hσ.phase i id htarget).of_mem_committed hcommitted
    exact ⟨hrequest, outcome, hdone⟩
  · rintro ⟨hrequest, outcome, hdone⟩
    obtain ⟨id, htarget⟩ := Request.exists_target_of_changesStatus hrequest
    exact ⟨(hσ.phase i id htarget).mem_committed htarget hdone, hrequest⟩

theorem Faithful.filter_eq_recorded {s : Store} {r : DocumentRow}
    (h : Faithful (s.recorded r.id) r) :
    (s.changes.filter fun c => c.document = r.id ∧ c.tenant = r.tenant) = s.recorded r.id := by
  refine List.filter_congr fun c hc => ?_
  by_cases hid : c.document = r.id
  · have htenant : c.tenant = r.tenant :=
      h.tenant c (List.mem_filter.mpr ⟨hc, decide_eq_true hid⟩)
    simp [hid, htenant]
  · simp [hid]

theorem Faithful.listed {s : Store} {r : DocumentRow} (h : Faithful (s.recorded r.id) r) :
    (s.changesOf r.tenant r.id).Perm (s.history r.id) := by
  rw [changesOf, h.filter_eq_recorded, history_eq_recorded h.increasing]
  exact (List.mergeSort_perm _ _).trans (List.reverse_perm _)

/-- What the recorded changes of status say of documents and of calls. -/
structure Ledger (service : Service) (jobs : ι → Job) (σ : Course ι fun i => (jobs i).Answer) :
    Prop where
  /-- The changes of a document by version account for it. -/
  faithful : ∀ r ∈ σ.store.documents, Faithful (σ.store.history r.id) r
  /-- They are the ones that its history lists. -/
  listed : ∀ r ∈ σ.store.documents,
    (σ.store.changesOf r.tenant r.id).Perm (σ.store.history r.id)
  /-- Each change of status that succeeded has recorded exactly one change, and nothing else has. -/
  recorded : ∃ calls : List ι, calls.Nodup ∧
    (∀ i, i ∈ calls ↔
      (jobs i).request.changesStatus = true ∧ ∃ outcome, σ.rest i = .done (.ok outcome)) ∧
    List.Forall₂ (fun i c => Records service (jobs i) c) calls σ.store.changes
  /-- Whatever is recorded stays as it is. -/
  kept : ∀ τ, Reaches σ τ → σ.store.changes <+: τ.store.changes

/-- From an empty store on, the status history is a faithful ledger. -/
theorem history_faithful (h : Reaches (.start {} fun i => (jobs i).program service) σ) :
    Ledger service jobs σ := by
  have hbalanced := balanced_of_reaches h
  constructor
  case faithful =>
    intro r hr
    have hfaithful := hbalanced.accounted.faithful r hr
    rw [history_eq_recorded hfaithful.increasing]
    exact hfaithful
  case listed => exact fun r hr => (hbalanced.accounted.faithful r hr).listed
  case recorded =>
    refine ⟨writers jobs σ, hbalanced.staged.nodup_writers, fun i => ?_, hbalanced.records⟩
    exact hbalanced.staged.mem_writers_iff
  case kept => exact fun τ hτ => changes_prefix_of_reaches hτ hbalanced.staged

def filingCall : Call :=
  { caller := { tenant := some (.ofNat 1) }
    now := default
    fresh := .ofNat 2 }

def filedDraft : NewDocument :=
  { documentType := some (.ofNat 3)
    party := some (.ofNat 4)
    lines :=
      [{ description := ""
         quantity := { Decimal.zero with coefficient := 1, coefficient_lt := by decide }
         unitPrice := { Decimal.zero with coefficient := 100, coefficient_lt := by decide }
         vatRate := .zero }] }

/-- A document is created, opened, numbered and closed. -/
def filing : Fin 4 → Job
  | 0 => ⟨filingCall, .createDocument filedDraft⟩
  | 1 => ⟨filingCall, .changeStatus filingCall.fresh .opened none⟩
  | 2 => ⟨filingCall, .assignNumber filingCall.fresh ""⟩
  | 3 => ⟨filingCall, .changeStatus filingCall.fresh .closed none⟩

def filed : Course (Fin 4) fun i => (filing i).Answer :=
  (start {} fun i => (filing i).program {}).replay [0, 1, 1, 2, 2, 2, 3, 3]

theorem history_faithful_filed :
    Ledger {} filing filed ∧
      ∃ r ∈ filed.store.documents, r.status = Status.closed.text ∧ r.version = 4 ∧
        (filed.store.recorded r.id).length = 2 := by
  have hledger : Ledger {} filing filed := history_faithful (reaches_replay _ _)
  have hclosed : ∃ r ∈ filed.store.documents, r.status = Status.closed.text ∧ r.version = 4 ∧
      (filed.store.recorded r.id).length = 2 := by
    decide +kernel
  exact ⟨hledger, hclosed⟩

end Docket
