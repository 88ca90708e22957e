import Docket.Audit.Delivery
import Docket.Proofs.Entries
import Docket.Proofs.Ledger

/-! # The audit trail

Calls run one after another, and what each of them reports is offered to a recorder. A call that
fails or only reads reports nothing. Any other one reports what it did to the store, so the reported
changes of status are those that the store records. The recorder has no say in any of this.
-/

namespace Docket

open Store Issuing Simulation

namespace Audit

/-! ## What an event tells -/

/-- An event tells of a counter as it is stored, and who changed it. -/
structure CounterChanged.Tells (e : CounterChanged) (r : CounterRow) (stamp : Stamp) : Prop where
  counter : e.counter = r.id
  tenant : e.tenant = r.tenant
  documentType : e.documentType = r.documentType
  series : e.series = r.series
  year : e.year = r.year
  user : e.user = stamp.user
  time : e.time = stamp.time

/-- An event tells of a number of a tenant, and who took it. -/
structure NumberAllocated.Tells (e : NumberAllocated) (tenant : Id) (n : Number) (stamp : Stamp) :
    Prop where
  counter : e.counter = n.counter
  tenant : e.tenant = tenant
  number : e.number = n.formatted
  value : e.value = n.value
  user : e.user = stamp.user
  time : e.time = stamp.time

/-- An event tells of a document as it is stored, and who changed it. -/
structure DocumentChanged.Tells (e : DocumentChanged) (r : DocumentRow) (stamp : Stamp) : Prop where
  document : e.document = r.id
  tenant : e.tenant = r.tenant
  number : e.number = r.number
  version : e.version = r.version
  user : e.user = stamp.user
  time : e.time = stamp.time

/-- An event tells of a change of status as it is recorded. -/
structure StatusChanged.Tells (e : StatusChanged) (c : ChangeRow) : Prop where
  document : e.document = c.document
  tenant : e.tenant = c.tenant
  source : e.source = c.source
  target : e.target = c.target
  reason : e.reason = c.reason
  user : e.user = c.changed.user
  clientAddress : e.clientAddress = c.clientAddress
  time : e.time = c.changed.time

theorem CounterChanged.Tells.of (c : Counter) (stamp : Stamp) :
    (CounterChanged.of c stamp).Tells (.encode c) stamp :=
  ⟨rfl, rfl, rfl, rfl, rfl, rfl, rfl⟩

theorem NumberAllocated.Tells.of (tenant : Id) (n : Number) (stamp : Stamp) :
    (NumberAllocated.of tenant n stamp).Tells tenant n stamp :=
  ⟨rfl, rfl, rfl, rfl, rfl, rfl⟩

theorem DocumentChanged.Tells.of (d : Document) (stamp : Stamp) :
    (DocumentChanged.of d stamp).Tells (.encode d) stamp :=
  ⟨rfl, rfl, rfl, rfl, rfl, rfl⟩

theorem StatusChanged.Tells.of (tenant : Id) (c : StatusChange) :
    (StatusChanged.of tenant c).Tells (.encode tenant c) :=
  ⟨rfl, rfl, rfl, rfl, rfl, rfl, rfl, rfl⟩

/-- The change of status that an event reports. -/
def Event.statusChange? : Event → Option StatusChanged
  | statusChanged e => some e
  | _ => none

/-- The reported changes of a document's status, in order. -/
def statusChanges (events : List Event) (id : Id) : List StatusChanged :=
  (events.filterMap Event.statusChange?).filter fun e => e.document = id

end Audit

open Audit

namespace Request

def reads : Request → Bool
  | getCounter _ => true
  | listCounters => true
  | getDocument _ => true
  | availableTransitions _ => true
  | statusHistory _ => true
  | validateTransition _ _ => true
  | _ => false

end Request

/-! ## One call -/

/-- What a call that succeeds does to the store, and the events that report it. -/
inductive Store.Mirrored (s t : Store) (stamp : Stamp) :
    (request : Request) → Outcome request.Answer → Prop
  | created {new : NewCounter} {c : Counter} {e : CounterChanged}
      (fresh : ∀ r ∈ s.counters, r.id ≠ c.id) (written : s.Written c t) (agrees : s.Agrees t)
      (tells : e.Tells (.encode c) stamp) :
      Mirrored s t stamp (.createCounter new) ⟨c, [.counterCreated e]⟩
  | configured {settings : CounterSettings} {b c : Counter} {e : CounterChanged}
      (stored : .encode b ∈ s.counters)
      (changed : c = { b with settings := settings, updated := stamp })
      (written : s.Written c t) (agrees : s.Agrees t) (tells : e.Tells (.encode c) stamp) :
      Mirrored s t stamp (.updateCounter b.id settings) ⟨c, [.counterUpdated e]⟩
  | retired {r : CounterRow} {e : CounterChanged} (stored : r ∈ s.counters) (live : r.isLive)
      (rows : ∀ q, q ∈ t.counters ↔ q = r.retire stamp ∨ q ∈ s.counters ∧ q.id ≠ r.id)
      (agrees : s.Agrees t) (tells : e.Tells r stamp) :
      Mirrored s t stamp (.deleteCounter r.id) ⟨(), [.counterRetired e]⟩
  | generated {c : Counter} {e : NumberAllocated} (written : s.Written c t) (agrees : s.Agrees t)
      (tells : e.Tells c.tenant c.number stamp) :
      Mirrored s t stamp (.generateNumber c.documentType c.series) ⟨c.number, [.numberAllocated e]⟩
  | drafted {new : NewDocument} {d : Document} {e : DocumentChanged}
      (fresh : ∀ r ∈ s.documents, r.id ≠ d.id)
      (store : t = { s with
        documents := s.documents ++ [.encode d]
        lines := s.lines ++ d.lines.map (LineRow.encode d.id) })
      (tells : e.Tells (.encode d) stamp) :
      Mirrored s t stamp (.createDocument new) ⟨d, [.documentCreated e]⟩
  | assigned {c : Counter} {b d : Document} {e : NumberAllocated} {f : DocumentChanged}
      (written : s.Written c t) (replaces : s.Replaces b d t) (changes : t.changes = s.changes)
      (allocated : e.Tells d.tenant c.number stamp) (tells : f.Tells (.encode d) stamp)
      (number : f.number = some e.number) :
      Mirrored s t stamp (.assignNumber b.id c.series) ⟨d, [.numberAllocated e, .numberAssigned f]⟩
  | moved {target : Status} {reason : Option String} {b d : Document} {c : ChangeRow}
      {e : StatusChanged} (counters : t.counters = s.counters) (replaces : s.Replaces b d t)
      (recorded : t.changes = s.changes ++ [c]) (document : c.document = b.id) (tells : e.Tells c) :
      Mirrored s t stamp (.changeStatus b.id target reason) ⟨d, [.statusChanged e]⟩
  | read {request : Request} {answer : request.Answer} (reads : request.reads = true)
      (store : t = s) : Mirrored s t stamp request ⟨answer, []⟩

section Calls

variable {service : Service} {call : Call} {s t : Store}

/-- A program that only reads, and reports nothing where it succeeds. -/
def Program.Quiet {α : Type} : Program (Except Failure (Outcome α)) → Prop
  | done (.ok outcome) => outcome.events = []
  | done (.error _) => True
  | request step next => Scene.isWrite step = false ∧ ∀ reply, (next reply).Quiet

theorem Program.Quiet.run {α : Type} {p : Program (Except Failure (Outcome α))} (hp : p.Quiet)
    {outcome : Outcome α} (h : p.run s = (.ok outcome, t)) : t = s ∧ outcome.events = [] := by
  induction p generalizing s with
  | done a =>
    obtain ⟨rfl, rfl⟩ := Prod.mk.inj h
    exact ⟨rfl, hp⟩
  | request step next ih =>
    rw [run_request, perform_of_read hp.1] at h
    exact ih _ (hp.2 _) h

theorem Store.Keyed.mem_retireCounter (hs : s.Keyed) {tenant : Id} {stamp : Stamp} {r : CounterRow}
    (hr : r ∈ s.liveCounters tenant) (h : s.retireCounter tenant r.id stamp = (true, t))
    (q : CounterRow) :
    q ∈ t.counters ↔ q = r.retire stamp ∨ q ∈ s.counters ∧ q.id ≠ r.id := by
  obtain ⟨hmem, htenant, hlive⟩ := mem_liveCounters.mp hr
  have hany : ((s.liveCounters tenant).any fun q => decide (q.id = r.id)) = true :=
    List.any_eq_true.mpr ⟨r, hr, decide_eq_true rfl⟩
  rw [retireCounter, if_pos hany] at h
  obtain rfl := (Prod.mk.inj h).2
  rw [List.mem_map]
  constructor
  · rintro ⟨q, hq, rfl⟩
    by_cases hid : q.id = r.id
    · obtain rfl := hs.counter_eq hq hmem hid
      exact Or.inl (if_pos ⟨rfl, htenant, hlive⟩)
    · rw [if_neg fun hretired => hid hretired.1]
      exact Or.inr ⟨hq, hid⟩
  · rintro (rfl | ⟨hq, hid⟩)
    · exact ⟨r, hmem, if_pos ⟨rfl, htenant, hlive⟩⟩
    · exact ⟨q, hq, if_neg fun hretired => hid hretired.1⟩

theorem Store.agrees_retireCounter {tenant id : Id} {stamp : Stamp} {retired : Bool}
    (h : s.retireCounter tenant id stamp = (retired, t)) : s.Agrees t := by
  unfold retireCounter at h
  split at h
  · exact (Prod.mk.inj h).2 ▸ agrees_counters s _
  · exact (Prod.mk.inj h).2 ▸ Agrees.refl s

namespace Service

open Docket.Action

theorem mirrored_createCounter {new : NewCounter} {outcome : Outcome Counter}
    (h : (service.createCounter call new).Succeeds s outcome t) :
    s.Mirrored t (service.stamp call) (.createCounter new) outcome := by
  obtain ⟨tenant, c, -, -, -, hinsert, rfl⟩ := createCounter_succeeds h
  obtain ⟨rfl, -, hadd⟩ := insertCounter_eq_ok_iff.mp hinsert
  obtain ⟨-, hfresh, ht⟩ := addCounter_eq_ok_iff.mp hadd
  have hagrees : s.Agrees t := ht ▸ agrees_counters s _
  exact .created hfresh (written_of_addCounter hadd rfl) hagrees (.of _ _)

theorem mirrored_updateCounter (hs : s.Keyed) {id : Id} {settings : CounterSettings}
    {outcome : Outcome Counter}
    (h : (service.updateCounter call id settings).Succeeds s outcome t) :
    s.Mirrored t (service.stamp call) (.updateCounter id settings) outcome := by
  obtain ⟨tenant, b, c, -, hcheck, hfind, hupdate, rfl⟩ := updateCounter_succeeds h
  obtain ⟨hlisted, rfl, hstorable⟩ := mem_of_findCounter hfind
  obtain ⟨hmem, -, hlive⟩ := mem_liveCounters.mp hlisted
  have hwrite := hs.updateSettings_eq hmem (service.stamp call)
    ⟨padding_of_checkSettings hcheck, hstorable.year⟩
  obtain ⟨hc, rfl⟩ := Prod.mk.inj (hwrite.symm.trans hupdate)
  obtain rfl := Except.ok.inj hc
  exact .configured hmem rfl (hs.written_of_configured hmem hlive _ _) (agrees_counters s _)
    (.of _ _)

theorem mirrored_deleteCounter (hs : s.Keyed) {id : Id} {outcome : Outcome Unit}
    (h : (service.deleteCounter call id).Succeeds s outcome t) :
    s.Mirrored t (service.stamp call) (.deleteCounter id) outcome := by
  obtain ⟨tenant, c, -, hfind, hretire, rfl⟩ := deleteCounter_succeeds h
  obtain ⟨hlisted, rfl, -⟩ := mem_of_findCounter hfind
  obtain ⟨hmem, -, hlive⟩ := mem_liveCounters.mp hlisted
  exact .retired (r := .encode c) hmem hlive (hs.mem_retireCounter hlisted hretire)
    (agrees_retireCounter hretire) (.of _ _)

theorem mirrored_generateNumber (hs : s.Keyed) {documentType : Id} {series : String}
    {outcome : Outcome Number}
    (h : (service.generateNumber call documentType series).Succeeds s outcome t) :
    s.Mirrored t (service.stamp call) (.generateNumber documentType series) outcome := by
  obtain ⟨tenant, c, -, hadvance, rfl⟩ := generateNumber_succeeds h
  have hadvances := hs.advance_eq_ok_iff.mp hadvance
  obtain ⟨rfl, rfl, rfl⟩ : c.tenant = tenant ∧ c.documentType = documentType ∧ c.series = series :=
    Stream.mk.inj hadvances.stream
  have hagrees : s.Agrees t := hadvances.tables ▸ agrees_counters s t.counters
  exact .generated ⟨hadvances.isLive, fun _ => hadvances.mem_counters⟩ hagrees (.of _ _ _)

theorem mirrored_createDocument {new : NewDocument} {outcome : Outcome Document}
    (h : (service.createDocument call new).Succeeds s outcome t) :
    s.Mirrored t (service.stamp call) (.createDocument new) outcome := by
  obtain ⟨tenant, d, -, hinsert, rfl⟩ := createDocument_succeeds h
  obtain ⟨hfresh, rfl, ht⟩ := insertDocument_eq_ok_iff.mp hinsert
  exact .drafted hfresh ht (.of _ _)

theorem mirrored_assignNumber (hs : s.Lawful) {id : Id} {series : String}
    {outcome : Outcome Document}
    (h : (service.assignNumber call id series).Succeeds s outcome t) :
    s.Mirrored t (service.stamp call) (.assignNumber id series) outcome := by
  obtain ⟨tenant, d, documentType, -, hfind, -, -, saved, hassign, rfl⟩ := assignNumber_succeeds h
  obtain ⟨rfl, rfl, hheld⟩ := hs.findDocument_eq_some_iff.mp hfind
  obtain ⟨c, u, hadvances, rfl, hreplaces, hcounters, hchanges⟩ :=
    hheld.replaces_of_assignNumber hs hassign
  obtain rfl : c.series = series := congrArg Stream.series hadvances.stream
  exact .assigned ⟨hadvances.isLive, fun _ => hcounters ▸ hadvances.mem_counters⟩ hreplaces hchanges
    (.of _ _ _) (.of _ _) rfl

theorem mirrored_changeStatus (hs : s.Keyed) {id : Id} {target : Status} {reason : Option String}
    {outcome : Outcome Document}
    (h : (service.changeStatus call id target reason).Succeeds s outcome t) :
    s.Mirrored t (service.stamp call) (.changeStatus id target reason) outcome := by
  obtain ⟨tenant, d, -, hfind, -, saved, hchange, rfl⟩ := changeStatus_succeeds h
  obtain ⟨rfl, rfl, hheld⟩ := hs.findDocument_eq_some_iff.mp hfind
  obtain ⟨rfl, hreplaces, hrecorded⟩ := hheld.replaces_of_applyChange hs hchange
  exact .moved (applyChange_counters hchange) hreplaces hrecorded rfl (.of _ _)

theorem Conducts.quiet {request : Request} {told : List Response}
    {p : Program (Except Failure (Outcome request.Answer))}
    (h : service.Conducts call request p told) (hreads : request.reads = true) : p.Quiet := by
  induction p generalizing told with
  | done a =>
    cases h with
    | answered acts prompted answers => cases answers <;> first | rfl | cases hreads
    | _ => exact trivial
  | request step next ih =>
    obtain ⟨⟨tenant, -, prompted⟩, hnext⟩ := h
    refine ⟨?_, fun reply => ih reply (hnext reply)⟩
    cases prompted with
    | opening => cases request <;> first | rfl | cases hreads
    | _ => cases hreads

theorem mirrored_of_reads {request : Request} (hreads : request.reads = true)
    {outcome : Outcome request.Answer}
    (h : (service.serve call request).Succeeds s outcome t) :
    s.Mirrored t (service.stamp call) request outcome := by
  obtain ⟨answer, events⟩ := outcome
  have hquiet := (service.conducts_serve call request).quiet hreads
  obtain ⟨rfl, rfl⟩ : t = s ∧ events = [] := hquiet.run h
  exact .read hreads rfl

/-- Whatever a call that succeeds did to the store is what it reports. -/
theorem mirrored_of_succeeds (hs : s.Lawful) {request : Request} {outcome : Outcome request.Answer}
    (h : (service.serve call request).Succeeds s outcome t) :
    s.Mirrored t (service.stamp call) request outcome := by
  cases request with
  | createCounter => exact mirrored_createCounter h
  | updateCounter => exact mirrored_updateCounter hs.toKeyed h
  | deleteCounter => exact mirrored_deleteCounter hs.toKeyed h
  | generateNumber => exact mirrored_generateNumber hs.toKeyed h
  | createDocument => exact mirrored_createDocument h
  | assignNumber => exact mirrored_assignNumber hs h
  | changeStatus => exact mirrored_changeStatus hs.toKeyed h
  | _ => exact mirrored_of_reads rfl h

end Service

theorem Store.Mirrored.changes {stamp : Stamp} {request : Request}
    {outcome : Outcome request.Answer} (h : s.Mirrored t stamp request outcome) :
    ∃ cs, t.changes = s.changes ++ cs ∧
      List.Forall₂ StatusChanged.Tells (outcome.events.filterMap Event.statusChange?) cs := by
  have hnone (hchanges : t.changes = s.changes) :
      ∃ cs, t.changes = s.changes ++ cs ∧ List.Forall₂ StatusChanged.Tells [] cs :=
    ⟨[], by rw [hchanges, List.append_nil], .nil⟩
  cases h with
  | created _ _ agrees => exact hnone agrees.changes
  | configured _ _ _ agrees => exact hnone agrees.changes
  | retired _ _ _ agrees => exact hnone agrees.changes
  | generated _ agrees => exact hnone agrees.changes
  | drafted _ store => exact hnone (store ▸ rfl)
  | assigned _ _ changes => exact hnone changes
  | moved _ _ recorded _ tells => exact ⟨_, recorded, .cons tells .nil⟩
  | read _ store => exact hnone (store ▸ rfl)

theorem Store.Lawful.run {α : Type} {p : Program α} (hs : s.Lawful) : (p.run s).2.Lawful := by
  induction p generalizing s with
  | done => exact hs
  | request step next ih => exact ih _ (hs.perform step)

end Calls

/-! ## A run of calls -/

/-- A call that was run, with its answer and the stores before and after it. -/
structure Served where
  job : Job
  before : Store
  answer : job.Answer
  after : Store

namespace Served

def events (v : Served) : List Event := v.job.events v.answer

/-- The events of a call tell what it did, and there are none where it failed. -/
inductive Told (service : Service) (v : Served) : Prop
  | failed {failure : Failure} (answer : v.answer = .error failure) (kept : v.after = v.before)
      (silent : v.events = [])
  | succeeded {outcome : Outcome v.job.request.Answer} (answer : v.answer = .ok outcome)
      (events : v.events = outcome.events)
      (mirrored : v.before.Mirrored v.after (service.stamp v.job.call) v.job.request outcome)

theorem Told.changes {service : Service} {v : Served} (h : v.Told service) :
    ∃ cs, v.after.changes = v.before.changes ++ cs ∧
      List.Forall₂ StatusChanged.Tells (v.events.filterMap Event.statusChange?) cs := by
  cases h with
  | failed answer kept silent =>
    exact ⟨[], by rw [kept, List.append_nil], by rw [silent]; exact .nil⟩
  | succeeded answer events mirrored => exact events ▸ mirrored.changes

end Served

namespace Service

variable {σ : Type}

def serveJob (service : Service) (job : Job) (s : Store) : Served :=
  ⟨job, s, ((job.program service).run s).1, ((job.program service).run s).2⟩

def serveAll (service : Service) : List Job → Store → List Served
  | [], _ => []
  | job :: jobs, s =>
    let v := service.serveJob job s
    v :: service.serveAll jobs v.after

def finish (service : Service) (jobs : List Job) (s : Store) : Store :=
  jobs.foldl (fun s job => (service.serveJob job s).after) s

def trail (service : Service) (jobs : List Job) (s : Store) : List Event :=
  (service.serveAll jobs s).flatMap Served.events

/-- Calls that are run one after another, each of which offers its events to a recorder. -/
def reportAll (service : Service) (r : Recorder σ) :
    List Job → Store → σ → List Served × Store × σ
  | [], s, kept => ([], s, kept)
  | job :: jobs, s, kept =>
    let v := service.serveJob job s
    let (others, s, kept) := service.reportAll r jobs v.after (r.offerAll kept v.events)
    (v :: others, s, kept)

variable {service : Service} {jobs : List Job} {s : Store}

theorem trail_cons (service : Service) (job : Job) (jobs : List Job) (s : Store) :
    service.trail (job :: jobs) s = (service.serveJob job s).events
      ++ service.trail jobs (service.serveJob job s).after :=
  List.flatMap_cons

theorem reportAll_eq (service : Service) (r : Recorder σ) (jobs : List Job) (s : Store) (kept : σ) :
    service.reportAll r jobs s kept
      = (service.serveAll jobs s, service.finish jobs s,
          r.offerAll kept (service.trail jobs s)) := by
  induction jobs generalizing s kept with
  | nil => rfl
  | cons job jobs ih =>
    rw [trail_cons, Recorder.offerAll_append, reportAll, ih]
    rfl

theorem told_serveJob (hs : s.Lawful) {job : Job} (hjob : job.request.YearFits) :
    (service.serveJob job s).Told service := by
  generalize hrun : (job.program service).run s = reply
  obtain ⟨answer, t⟩ := reply
  have hserved : service.serveJob job s = ⟨job, s, answer, t⟩ := by rw [serveJob, hrun]
  rw [hserved]
  cases answer with
  | error f => exact .failed rfl ((keeps_serve service job.call hs.toKeyed hjob).run hrun) rfl
  | ok outcome => exact .succeeded rfl rfl (mirrored_of_succeeds hs hrun)

theorem told_of_mem (hs : s.Lawful) (hjobs : ∀ job ∈ jobs, job.request.YearFits) :
    ∀ v ∈ service.serveAll jobs s, v.Told service := by
  induction jobs generalizing s with
  | nil => exact fun v hv => absurd hv List.not_mem_nil
  | cons job jobs ih =>
    obtain ⟨hjob, hjobs⟩ := List.forall_mem_cons.mp hjobs
    exact List.forall_mem_cons.mpr ⟨told_serveJob hs hjob, ih hs.run hjobs⟩

/-- The reported changes of status are those that the store records, in order. -/
theorem changes_of_told (htold : ∀ v ∈ service.serveAll jobs s, v.Told service) :
    ∃ cs, (service.finish jobs s).changes = s.changes ++ cs ∧
      List.Forall₂ StatusChanged.Tells ((service.trail jobs s).filterMap Event.statusChange?)
        cs := by
  induction jobs generalizing s with
  | nil => exact ⟨[], (List.append_nil _).symm, .nil⟩
  | cons job jobs ih =>
    obtain ⟨hfirst, hothers⟩ := List.forall_mem_cons.mp htold
    obtain ⟨cs, hcs, htells⟩ := hfirst.changes
    obtain ⟨ds, hds, hlater⟩ := ih hothers
    refine ⟨cs ++ ds, ?_, ?_⟩
    · rw [← List.append_assoc]
      exact hds.trans (congrArg (· ++ ds) hcs)
    · rw [trail_cons, List.filterMap_append]
      exact List.rel_append htells hlater

end Service

/-- What a recorder is offered while calls are run one after another, and what it has to do with
them. -/
structure Trail (service : Service) (jobs : List Job) (s : Store) : Prop where
  /-- A call that fails or only reads reports nothing, and any other one what it did. -/
  told : ∀ v ∈ service.serveAll jobs s, v.Told service
  /-- The reported changes of a document's status are those recorded meanwhile, in order. -/
  changes : ∀ id, ∃ cs, (service.finish jobs s).recorded id = s.recorded id ++ cs ∧
    List.Forall₂ StatusChanged.Tells (statusChanges (service.trail jobs s) id) cs
  /-- A recorder that takes every event has all of them in the end. -/
  kept : (service.reportAll Recorder.keeper jobs s []).2.2 = service.trail jobs s
  /-- Whatever a recorder takes or refuses, the answers and the store are the same. -/
  apart : ∀ (σ : Type) (r : Recorder σ) (kept : σ),
    (service.reportAll r jobs s kept).1 = service.serveAll jobs s ∧
      (service.reportAll r jobs s kept).2.1 = service.finish jobs s

/-- The audit trail matches what was done to the store. -/
theorem trail_matches (service : Service) {jobs : List Job} {s : Store} (hs : s.Lawful)
    (hjobs : ∀ job ∈ jobs, job.request.YearFits) : Trail service jobs s := by
  have htold : ∀ v ∈ service.serveAll jobs s, v.Told service := Service.told_of_mem hs hjobs
  obtain ⟨cs, hcs, htells⟩ := Service.changes_of_told htold
  constructor
  case told => exact htold
  case changes =>
    refine fun id => ⟨cs.filter fun c => c.document = id, ?_, ?_⟩
    · rw [recorded, hcs, List.filter_append, recorded]
    · refine List.rel_filter (fun e c h => ?_) htells
      simp only [h.document]
  case kept => rw [Service.reportAll_eq, Recorder.keeper_offerAll, List.nil_append]
  case apart =>
    intro σ r kept
    rw [Service.reportAll_eq]
    exact ⟨rfl, rfl⟩

/-- The calls of a filing one after another: the document is opened and closed, as reported. -/
theorem trail_matches_filing :
    Trail {} (List.ofFn filing) {} ∧
      ((statusChanges (Service.trail {} (List.ofFn filing) {}) filingCall.fresh).map
        fun e => (e.source, e.target)) = [("DRAFT", "OPEN"), ("OPEN", "CLOSED")] := by
  have hjobs : ∀ job ∈ List.ofFn filing, job.request.YearFits := by
    intro job hjob
    obtain ⟨i, rfl⟩ := List.mem_ofFn.mp hjob
    match i with
    | 0 | 1 | 2 | 3 => exact trivial
  exact ⟨trail_matches {} lawful_empty hjobs, by decide +kernel⟩

end Docket
