import Docket.Proofs.Amounts
import Docket.Proofs.Contents
import Docket.Proofs.Ledger
import Docket.Proofs.Readable
import Docket.Proofs.Strains

/-! # Calls that leave the range of their arithmetic

A call ends in an overflow where the value of a counter or the version of a document is the greatest
there is, or where an open document is to be closed whose amounts are too great to be added up.
Versions and values grow by one at a time, so the first takes a counter that starts high up, or more
calls than there will ever be; the amounts of a document are those that it was created with.
-/

namespace Docket

open Store Issuing Simulation

namespace Store

variable {α : Type} {s t : Store} {a : Allocation} {step : Step} {o : Overflow}

theorem fst_commit_eq_error_iff {x : Except StoreFailure (α × Store)} {f : StoreFailure} :
    (s.commit x).1 = .error f ↔ x = .error f := by
  cases x <;> simp [commit]

theorem lift_ne_overflow (x : Except DecodeFailure α) (o : Overflow) :
    lift x ≠ .error (.overflow o) := by
  cases x <;> exact nofun

/-- The counter that serves an allocation has come to the greatest value there is. -/
def Exhausts (s : Store) (a : Allocation) : Prop :=
  ∃ counters c, CounterRow.decodeAll (s.streamRows a.stream) = .ok counters ∧
    select? counters a.year = some c ∧ int64Bound ≤ (a.next c).value

theorem Keyed.advance_eq_overflow_iff (hs : s.Keyed) :
    s.advance a = .error (.overflow o) ↔ o = .integerSum ∧ s.Exhausts a := by
  constructor
  · intro h
    cases hrows : CounterRow.decodeAll (s.streamRows a.stream) with
    | error f => simp [advance, hrows, lift, DecodeFailure.toStoreFailure, bind, Except.bind] at h
    | ok counters =>
      cases hselect : select? counters a.year with
      | none =>
        rw [advance_of_none hrows hselect] at h
        cases hadd : s.addCounter (.encode a.firstCounter) with
        | error f =>
          obtain ⟨key, rfl⟩ := exists_of_addCounter_error hadd
          simp [hadd, bind, Except.bind] at h
        | ok u =>
          cases hd : (CounterRow.encode a.firstCounter).decode <;>
            simp [hadd, hd, lift, DecodeFailure.toStoreFailure, bind, Except.bind, pure,
              Except.pure] at h
      | some c =>
        rw [hs.advance_of_some hrows hselect] at h
        by_cases hvalue : (a.next c).value < int64Bound
        · rw [if_neg (not_not.mpr hvalue)] at h
          split at h
          · cases h
          · cases hd : (CounterRow.encode (a.next c)).decode <;>
              simp [hd, lift, DecodeFailure.toStoreFailure, Except.map] at h
        · rw [if_pos hvalue] at h
          cases h
          exact ⟨rfl, counters, c, hrows, hselect, Int.not_lt.mp hvalue⟩
  · rintro ⟨rfl, counters, c, hrows, hselect, hvalue⟩
    rw [hs.advance_of_some hrows hselect, if_pos (Int.not_lt.mpr hvalue)]

theorem assignNumber_eq_overflow_iff {d : Document} {expected : Int} :
    s.assignNumber d expected a = .error (.overflow o) ↔ s.advance a = .error (.overflow o) := by
  rw [assignNumber_eq_error_iff]
  constructor
  · rintro (h | ⟨c, u, -, hchange⟩)
    · exact h
    · cases (changeDocument_eq_error_iff.mp hchange).2
  · exact Or.inl

/-- Only an allocation makes the store overflow, and only where its counter is exhausted. -/
theorem Keyed.perform_eq_overflow_iff (hs : s.Keyed) :
    (s.perform step).1 = .error (.overflow o) ↔
      o = .integerSum ∧ ∃ a, Scene.allocation? step = some a ∧ s.Exhausts a := by
  have hnone (h : Scene.allocation? step = none)
      (hreply : (s.perform step).1 ≠ .error (.overflow o)) :
      (s.perform step).1 = .error (.overflow o) ↔
        o = .integerSum ∧ ∃ a, Scene.allocation? step = some a ∧ s.Exhausts a := by
    simp [h, hreply]
  cases step with
  | allocate a =>
    refine fst_commit_eq_error_iff.trans (hs.advance_eq_overflow_iff.trans ?_)
    simp [Scene.allocation?]
  | assignNumber d expected a =>
    refine fst_commit_eq_error_iff.trans (assignNumber_eq_overflow_iff.trans ?_)
    simp [hs.advance_eq_overflow_iff, Scene.allocation?]
  | findCounter | findCounterByKey | findDocument | findStatus =>
    refine hnone rfl ?_
    simp only [perform, Store.findCounter, Store.findCounterByKey, Store.findDocument,
      Store.findStatus]
    split
    · intro h
      cases h
    · exact lift_ne_overflow _ _
  | listCounters | listChanges => exact hnone rfl (lift_ne_overflow _ _)
  | insertCounter c =>
    refine hnone rfl ?_
    simp only [perform, insertCounter]
    cases hadd : s.addCounter (.encode c) with
    | error f =>
      obtain ⟨key, rfl⟩ := exists_of_addCounter_error hadd
      intro h
      cases h
    | ok t => exact lift_ne_overflow _ _
  | updateSettings c =>
    refine hnone rfl ?_
    simp only [perform, updateSettings]
    split
    · intro h
      cases h
    · exact lift_ne_overflow _ _
  | insertDocument d =>
    refine hnone rfl fun h => ?_
    have h := fst_commit_eq_error_iff.mp h
    unfold insertDocument at h
    split at h <;> cases h
  | applyChange d expected c =>
    refine hnone rfl fun h => ?_
    have h := fst_commit_eq_error_iff.mp h
    unfold applyChange at h
    cases hchange : s.changeDocument d expected fun r => r.moved d with
    | error f =>
      obtain ⟨-, rfl⟩ := changeDocument_eq_error_iff.mp hchange
      simp only [hchange, bind, Except.bind] at h
      cases h
    | ok u =>
      simp only [hchange, bind, Except.bind] at h
      split at h <;> cases h
  | acquire | retireCounter =>
    refine hnone rfl fun h => ?_
    cases h

/-- What values and versions can have come to with so many requests, where counters start as some
requests say. -/
structure Within (starts : Int → Prop) (n : Nat) (s : Store) : Prop where
  values : ∀ r ∈ s.counters, r.value ≤ n ∨ ∃ start, starts start ∧ r.value ≤ start + n
  versions : ∀ r ∈ s.documents, r.version ≤ n + 1

variable {starts : Int → Prop} {n : Nat}

theorem within_empty : Within starts 0 {} :=
  ⟨fun _ hr => absurd hr List.not_mem_nil, fun _ hr => absurd hr List.not_mem_nil⟩

theorem next_value_le (a : Allocation) (c : Counter) :
    (a.next c).value = c.value + 1 ∨ (a.next c).value = 1 := by
  by_cases h : a.Rolls c
  · exact Or.inr (by rw [Allocation.next_of_rolls h])
  · exact Or.inl (by rw [Allocation.next_of_not_rolls h])

theorem Within.values_of_replies (hs : s.Within starts n) (hkeyed : s.Keyed) {reply : step.Reply}
    (h : s.Replies step reply t) (hstarts : ∀ c, step = .insertCounter c → starts c.value) :
    ∀ r ∈ t.counters, r.value ≤ (n + 1 : Nat) ∨
      ∃ start, starts start ∧ r.value ≤ start + (n + 1 : Nat) := by
  intro q hq
  have hmono {v : Int} (hv : v ≤ n ∨ ∃ start, starts start ∧ v ≤ start + n) :
      v + 1 ≤ (n + 1 : Nat) ∨ ∃ start, starts start ∧ v + 1 ≤ start + (n + 1 : Nat) := by
    rcases hv with hv | ⟨start, hstart, hv⟩
    · exact Or.inl (by omega)
    · exact Or.inr ⟨start, hstart, by omega⟩
  have hgrows {v : Int} (hv : v ≤ n ∨ ∃ start, starts start ∧ v ≤ start + n) :
      v ≤ (n + 1 : Nat) ∨ ∃ start, starts start ∧ v ≤ start + (n + 1 : Nat) :=
    (hmono hv).imp (fun h => by omega) fun ⟨start, hstart, h⟩ => ⟨start, hstart, by omega⟩
  cases h.origin hkeyed hq with
  | kept stored => exact hgrows (hs.values q stored)
  | @inserted c request row =>
    subst row
    refine Or.inr ⟨_, hstarts _ request, ?_⟩
    change c.value ≤ c.value + _
    omega
  | @configured c r _ stored row =>
    subst row
    exact hgrows (hs.values r stored)
  | @retired _ _ _ r _ stored row =>
    subst row
    exact hgrows (hs.values r stored)
  | first _ row =>
    subst row
    refine Or.inl ?_
    change (1 : Int) ≤ _
    omega
  | @next a c _ stored _ row =>
    subst row
    have hvalue : (CounterRow.encode (a.next c)).value = (a.next c).value := rfl
    rcases next_value_le a c with hnext | hnext
    · rw [hvalue, hnext]
      exact hmono (hs.values _ stored)
    · rw [hvalue, hnext]
      exact Or.inl (by omega)

theorem Within.versions_replaced (hs : s.Within starts n) {d e : Document} (h : s.Replaces d e t)
    (hversion : e.version = d.version + 1) : ∀ r ∈ t.documents, r.version ≤ (n + 1 : Nat) + 1 := by
  intro r hr
  rcases h.mem_documents.mp hr with rfl | ⟨hr, -⟩
  · have hheld : d.version ≤ n + 1 := hs.versions _ h.held.row
    change e.version ≤ _
    omega
  · have hold := hs.versions r hr
    omega

theorem Within.versions_of_revision (hs : s.Within starts n) {service : Service} {job : Job}
    {reply : step.Reply} (h : Exchange.Revision service job ⟨s, step, reply, t⟩) :
    ∀ r ∈ t.documents, r.version ≤ (n + 1 : Nat) + 1 := by
  have hkept {r : DocumentRow} (hr : r ∈ s.documents) : r.version ≤ (n + 1 : Nat) + 1 := by
    have hold := hs.versions r hr
    omega
  cases h with
  | none quiet agrees => exact fun r hr => hkept (agrees.documents ▸ hr)
  | some commits revises =>
    obtain ⟨call, request⟩ := job
    cases revises with
    | @created new tenant saved _ inserted =>
      obtain ⟨-, -, hafter⟩ := insertDocument_eq_ok_iff.mp inserted
      have hdocuments : t.documents
          = s.documents ++ [.encode (service.newDocument call tenant new)] :=
        congrArg Store.documents hafter
      intro r hr
      rw [hdocuments] at hr
      rcases List.mem_append.mp hr with hr | hr
      · exact hkept hr
      · obtain rfl := List.mem_singleton.mp hr
        change (1 : Int) ≤ _
        omega
    | numbered _ replaces => exact hs.versions_replaced replaces rfl
    | moved _ replaces => exact hs.versions_replaced replaces rfl

end Store

/-! ## Courses -/

/-- Exchanges with which a call leaves the range of its arithmetic. -/
inductive Exchange.Strains (e : Exchange) (request : Request) : Overflow → Prop
  /-- The store is to go beyond the greatest value of a counter. -/
  | counter {a : Allocation} (served : e.Served) (allocates : Scene.allocation? e.step = some a)
      (exhausted : e.before.Exhausts a) : Strains e request .integerSum
  /-- The call is to go beyond the greatest version, or adds up amounts that are too great. -/
  | document {d : Document} {o : Overflow} (loads : e.load? = some d)
      (overtaxes : request.Overtaxes d o) : Strains e request o

theorem Exchange.strains_iff {e : Exchange} {request : Request} {o : Overflow}
    (hs : e.before.Keyed) (hrefusal : ¬ e.Served → ∀ o, e.reply ≠ .error (.overflow o)) :
    e.Strains request o ↔ request.Strains e.step e.reply o := by
  constructor
  · rintro (⟨hserved, hallocates, hexhausted⟩ | ⟨hloads, hovertaxes⟩)
    · have hreply := hs.perform_eq_overflow_iff.mpr ⟨rfl, _, hallocates, hexhausted⟩
      exact Or.inl ((Prod.ext_iff.mp hserved).1.symm.trans hreply)
    · exact Or.inr ⟨_, hloads, hovertaxes⟩
  · rintro (hreply | ⟨d, hloads, hovertaxes⟩)
    · by_cases hserved : e.Served
      · obtain ⟨rfl, a, hallocates, hexhausted⟩ :=
          hs.perform_eq_overflow_iff.mp ((Prod.ext_iff.mp hserved).1.trans hreply)
        exact .counter hserved hallocates hexhausted
      · exact absurd hreply (hrefusal hserved o)
    · exact .document hloads hovertaxes

theorem Exchange.holds_of_load? {e : Exchange} {d : Document} (hs : e.before.Keyed)
    (hreplies : e.before.Replies e.step e.reply e.after) (h : e.load? = some d) :
    e.before.Holds d := by
  obtain ⟨s, step, reply, t⟩ := e
  cases step with
  | findDocument tenant id =>
    cases reply with
    | error f => cases h
    | ok found =>
      obtain rfl : found = some d := h
      have hfind := (Prod.ext_iff.mp hreplies.perform_eq).1
      exact (hs.findDocument_eq_some_iff.mp hfind).2.2
  | _ => cases h

section Run

open Course

variable {ι : Type} {service : Service} {jobs : ι → Job} {σ τ : Course ι fun i => (jobs i).Answer}

def startsOf (jobs : ι → Job) (start : Int) : Prop :=
  ∃ i new, (jobs i).request = .createCounter new ∧ new.start = start

def draftsOf (jobs : ι → Job) (new : NewDocument) : Prop :=
  ∃ i, (jobs i).request = .createDocument new

/-- A store that so many requests of calls can have led to. -/
structure Store.Ranged (jobs : ι → Job) (n : Nat) (s : Store) : Prop where
  keyed : s.Keyed
  within : s.Within (startsOf jobs) n
  authored : s.Authored (draftsOf jobs)

/-- Stores whose values and versions have grown with the requests. -/
structure Ranging (jobs : ι → Job) (σ : Course ι fun i => (jobs i).Answer) : Prop where
  ranged : σ.store.Ranged jobs σ.trace.length
  before : ∀ i e, (i, e) ∈ σ.trace → ∃ n < σ.trace.length, e.before.Ranged jobs n

theorem ranging_start : Ranging jobs (.start {} fun i => (jobs i).program service) :=
  { ranged := ⟨lawful_empty.toKeyed, within_empty, authored_empty⟩
    before := fun _ _ he => absurd he List.not_mem_nil }

variable [DecidableEq ι]

theorem Ranging.move (h : Move σ τ) (hσ : Ranging jobs σ) (hstaged : Staged service jobs σ) :
    Ranging jobs τ := by
  obtain ⟨hrest, hreplies⟩ := h
  rename_i i step next reply t
  have hrevision := (hstaged.revision hrest hreplies).1
  refine { ranged := ?ranged, before := ?before }
  case ranged =>
    rw [reply_trace, List.length_append]
    have hasks := hstaged.asks hrest
    refine ⟨(hreplies.lawful hstaged.lawful).toKeyed, ⟨?_, ?_⟩, ?_⟩
    · refine hσ.ranged.within.values_of_replies hσ.ranged.keyed hreplies fun c hc => ?_
      subst hc
      obtain ⟨new, tenant, hrequest, rfl⟩ := Request.asks_insertCounter hasks
      exact ⟨i, new, hrequest, rfl⟩
    · exact hσ.ranged.within.versions_of_revision hrevision
    · exact hσ.ranged.authored.of_revision hrevision fun new hnew => ⟨i, hnew⟩
  case before =>
    intro j e he
    rw [reply_trace, List.length_append]
    rcases List.mem_append.mp he with he | he
    · obtain ⟨n, hn, hranged⟩ := hσ.before j e he
      exact ⟨n, Nat.lt_succ_of_lt hn, hranged⟩
    · cases List.mem_singleton.mp he
      exact ⟨_, Nat.lt_succ_self _, hσ.ranged⟩

theorem ranging_of_reaches (h : Reaches (.start {} fun i => (jobs i).program service) σ) :
    Ranging jobs σ := by
  induction h with
  | refl => exact ranging_start
  | tail h hmove ih => exact ih.move hmove (staged_of_reaches h (staged_start lawful_empty))

/-- A call has ended in an overflow exactly if one of its replies strained it. -/
theorem Conducted.overflow_iff (hσ : Conducted service jobs σ) {i : ι} {o : Overflow} :
    σ.rest i = .done (.error (.overflow o)) ↔
      ∃ e, (i, e) ∈ σ.trace ∧ (jobs i).request.Strains e.step e.reply o := by
  constructor
  · intro hdone
    obtain ⟨r, hr, hstrains⟩ := (hσ.concludes hdone).overflow_iff.mp rfl
    obtain ⟨e, he, rfl⟩ := exists_mem_of_told hr
    exact ⟨e, he, hstrains⟩
  · rintro ⟨e, he, hstrains⟩
    cases hrest : σ.rest i with
    | request step next =>
      obtain ⟨tenant, -, prompted⟩ := hσ.prompts hrest
      exact absurd hstrains (prompted.not_strains (told_of_mem he))
    | done a =>
      have hover := (hσ.concludes hrest).overflow_iff.mpr ⟨_, told_of_mem he, hstrains⟩
      rw [hover]

/-- Calls whose numbers do not run out of range within so many requests, and whose amounts can be
added up as they are stored. -/
structure Moderate (jobs : ι → Job) (n : Nat) : Prop where
  requests : (n : Int) + 1 < int64Bound
  starts : ∀ start, startsOf jobs start → start + n < int64Bound
  amounts : ∀ new, draftsOf jobs new → ∀ lines, new.content.mapM Line.reread = .ok lines →
    ∃ total, Document.grossSum lines = .ok total

omit [DecidableEq ι] in
theorem Moderate.not_exhausts {n m : Nat} {s : Store} {a : Allocation} (hjobs : Moderate jobs n)
    (hm : m < n) (hs : s.Within (startsOf jobs) m) : ¬ s.Exhausts a := by
  rintro ⟨counters, c, hrows, hselect, hvalue⟩
  have hc : c.value ≤ m ∨ ∃ start, startsOf jobs start ∧ c.value ≤ start + m :=
    hs.values _ (mem_of_rows hrows (mem_of_select? hselect)).1
  have hbound : (2 : Int) < int64Bound := by decide
  have hrequests := hjobs.requests
  rcases next_value_le a c with hnext | hnext
  · rcases hc with hc | ⟨start, hstart, hc⟩
    · omega
    · have hlimit := hjobs.starts start hstart
      omega
  · omega

omit [DecidableEq ι] in
theorem Moderate.not_overtaxes {n m : Nat} {s : Store} {d : Document} {request : Request}
    {o : Overflow} (hjobs : Moderate jobs n) (hm : m < n) (hs : s.Ranged jobs m) (hd : s.Holds d) :
    ¬ request.Overtaxes d o := by
  rintro (⟨-, hlast⟩ | ⟨-, -, hsum⟩)
  · have hversion : d.version ≤ m + 1 := hs.within.versions _ hd.row
    have hrequests := hjobs.requests
    omega
  · obtain ⟨new, hnew, hlines⟩ := hs.authored.written _ hd.row
    have hcontent := hd.lines
    have hid : (DocumentRow.encode d).id = d.id := rfl
    rw [hid] at hlines
    rw [hlines, mapM_decode_encode] at hcontent
    obtain ⟨total, htotal⟩ := hjobs.amounts new hnew _ hcontent
    cases htotal.symm.trans hsum

/-- From an empty store on, a call ends in an overflow exactly if one of its requests strains it. No
call does while there are not too many requests, no counter is to start too high and the amounts of
each document can be added up. -/
theorem overflow_iff_strains (h : Reaches (.start {} fun i => (jobs i).program service) σ)
    (hrefusals : ∀ i e, (i, e) ∈ σ.trace → ¬ e.Served → ∀ o, e.reply ≠ .error (.overflow o)) :
    (∀ i o, σ.rest i = .done (.error (.overflow o)) ↔
      ∃ e, (i, e) ∈ σ.trace ∧ e.Strains (jobs i).request o) ∧
    (Moderate jobs σ.trace.length → ∀ i a, σ.rest i = .done a →
      (∃ outcome, a = .ok outcome) ∨ ∃ e, a = .error (.error e)) := by
  have hranging := ranging_of_reaches h
  have hconducted := conducted_of_reaches h
  have hiff : ∀ i o, σ.rest i = .done (.error (.overflow o)) ↔
      ∃ e, (i, e) ∈ σ.trace ∧ e.Strains (jobs i).request o := by
    intro i o
    refine hconducted.overflow_iff.trans (exists_congr fun e => and_congr_right fun he => ?_)
    obtain ⟨n, -, hranged⟩ := hranging.before i e he
    exact (Exchange.strains_iff hranged.keyed (hrefusals i e he)).symm
  refine ⟨hiff, fun hjobs i a hdone => ?_⟩
  obtain f | outcome := a
  · cases f with
    | error e => exact Or.inr ⟨e, rfl⟩
    | overflow o =>
      obtain ⟨e, he, hstrains⟩ := (hiff i o).mp hdone
      obtain ⟨n, hn, hranged⟩ := hranging.before i e he
      cases hstrains with
      | counter _ _ hexhausted => exact absurd hexhausted (hjobs.not_exhausts hn hranged.within)
      | document hloads hovertaxes =>
        have hheld := Exchange.holds_of_load? hranged.keyed (hconducted.replied i e he) hloads
        exact absurd hovertaxes (hjobs.not_overtaxes hn hranged hheld)
  · exact Or.inl ⟨outcome, rfl⟩

end Run

/-- The calls of a filing end well: their numbers are small. -/
theorem overflow_iff_strains_filed :
    Moderate filing filed.trace.length ∧ ∀ i a, filed.rest i = .done a →
      (∃ outcome, a = .ok outcome) ∨ ∃ e, a = .error (.error e) := by
  have hserved : ∀ p ∈ filed.trace, p.2.Served :=
    Course.served_replay (fun _ h => absurd h List.not_mem_nil) _
  have hmoderate : Moderate filing filed.trace.length := by
    constructor
    case requests => decide +kernel
    case starts =>
      rintro start ⟨i, new, hrequest, -⟩
      match i with
      | 0 | 1 | 2 | 3 => cases hrequest
    case amounts =>
      rintro new ⟨i, hrequest⟩ lines hlines
      obtain rfl : new = filedDraft := by
        match i with
        | 0 => exact (Request.createDocument.inj hrequest).symm
        | 1 | 2 | 3 => cases hrequest
      have hsum : ((filedDraft.content.mapM Line.reread).toOption.all fun lines =>
          (Document.grossSum lines).isOk) = true := by
        decide +kernel
      rw [hlines] at hsum
      cases htotal : Document.grossSum lines with
      | ok total => exact ⟨total, rfl⟩
      | error o => simp [htotal, Except.toOption, Except.isOk, Except.toBool] at hsum
  exact ⟨hmoderate, (overflow_iff_strains (Course.reaches_replay _ _)
    fun i e he hrefused => absurd (hserved (i, e) he) hrefused).2 hmoderate⟩

def lastStart : NewCounter :=
  { key := ⟨.ofNat 3, "", some 1970⟩
    start := int64Bound - 1
    settings := {} }

/-- A number is asked for once that counter is there. -/
def exhausting : Fin 2 → Job
  | 0 => ⟨firstCall.call, .createCounter lastStart⟩
  | 1 => ⟨firstCall.call, .generateNumber (.ofNat 3) ""⟩

/-- A draft whose only amount is far too great, though its parts are not. -/
def greatDraft : NewDocument :=
  { filedDraft with
    lines :=
      [{ description := ""
         quantity := .ofParts (10 ^ 20) 0
         unitPrice := .ofParts (10 ^ 20) 0
         vatRate := .zero }] }

/-- That draft is opened and then closed. -/
def straining : Fin 3 → Job
  | 0 => ⟨filingCall, .createDocument greatDraft⟩
  | 1 => ⟨filingCall, .changeStatus filingCall.fresh .opened none⟩
  | 2 => ⟨filingCall, .changeStatus filingCall.fresh .closed none⟩

def strained : Course (Fin 3) fun i => (straining i).Answer :=
  (Course.start {} fun i => (straining i).program {}).replay (Course.inTurn 3 2)

def exhausted : Course (Fin 2) fun i => (exhausting i).Answer :=
  (Course.start {} fun i => (exhausting i).program {}).replay (Course.inTurn 2 2)

/-- A counter that was accepted makes the next call for a number end in an overflow, and a document
that was accepted the call to close it. -/
theorem accepted_calls_overflow :
    (Course.Reaches (.start {} fun i => (exhausting i).program {}) exhausted ∧
      (∃ outcome, exhausted.rest 0 = .done (.ok outcome)) ∧
      exhausted.rest 1 = .done (.error (.overflow .integerSum))) ∧
    Course.Reaches (.start {} fun i => (straining i).program {}) strained ∧
      (∃ outcome, strained.rest 0 = .done (.ok outcome)) ∧
      strained.rest 2 = .done (.error (.overflow .decimalProduct)) := by
  refine ⟨⟨Course.reaches_replay _ _, ⟨_, rfl⟩, ?number⟩, Course.reaches_replay _ _,
    ?created, ?close⟩
  case number => exact Course.failure?_eq_some_iff.mp (by decide +kernel)
  case created =>
    have hcreated : strained.succeeds 0 = true := by decide +kernel
    exact Course.succeeds_iff.mp hcreated
  case close => exact Course.failure?_eq_some_iff.mp (by decide +kernel)

end Docket
