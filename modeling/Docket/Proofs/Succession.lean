import Docket.Proofs.Ledger
import Docket.Proofs.Timestamps

/-! # Changes in the order of time

A call that changes a status reads the clock once it has loaded the document, and its write goes
through only if the document is still as it was loaded. So whoever changed it before had written by
then, and had read the clock before that: with a clock that never goes back, the changes of a
document are recorded in the order of their times, although no lock is held.
-/

namespace Docket

open Store Simulation Time

namespace Store

variable {s t : Store} {service : Service} {call : Call} {request : Request} {d e x : Document}

theorem Replaces.outdates (h : s.Replaces d e t) (hs : s.Keyed)
    (hversion : e.version = d.version + 1) (hid : d.id = x.id) (hx : s.Tracks x) :
    t.Outdates x := by
  obtain ⟨r, hr, hrow, -, hle, -⟩ := hx
  obtain rfl := hs.document_eq hr h.held.row (hrow.trans hid.symm)
  have hle : x.version ≤ d.version := hle
  have hlt : x.version < e.version := by omega
  exact ⟨.encode e, h.mem_documents.mpr (Or.inl rfl), h.id.trans hid, hlt⟩

theorem Revises.outdates (h : s.Revises service call request t) (hs : s.Keyed)
    (htarget : request.target? = some x.id) (hx : s.Tracks x) : t.Outdates x := by
  cases h with
  | created => cases htarget
  | numbered unnumbered replaces => exact replaces.outdates hs rfl (Option.some.inj htarget) hx
  | moved valid replaces => exact replaces.outdates hs rfl (Option.some.inj htarget) hx

theorem Replies.tracks_of_load {step : Step} {reply : step.Reply} (h : s.Replies step reply t)
    (hload : step.load? reply = some d) : t.Tracks d := by
  cases step with
  | findDocument tenant id =>
    obtain rfl : t = s := h.of_read rfl
    obtain f | _ | e := reply
    · cases hload
    · cases hload
    · cases hload
      exact tracks_of_findDocument (Prod.ext_iff.mp h.perform_eq).1
  | _ => cases hload

theorem Rewrites.not_outdates {f : DocumentRow → DocumentRow} (h : s.Rewrites d t f)
    (hs : s.Keyed) : ¬ s.Outdates d := by
  rintro ⟨q, hq, hid, hlt⟩
  obtain ⟨r, hr, hrow, -, hversion⟩ := h.matched
  obtain rfl := hs.document_eq hq hr (hid.trans hrow.symm)
  exact absurd hversion hlt.ne'

end Store

theorem Request.revises_of_target? {request : Request} {id : Id} (h : request.target? = some id) :
    request.revises = true := by
  cases request with
  | assignNumber | changeStatus => rfl
  | _ => cases h

open Course

variable {ι : Type} [DecidableEq ι] {service : Service} {jobs : ι → Job}
  {σ τ : Course ι fun i => (jobs i).Answer} {i j : ι} {d : Document}

/-- A write that goes through is that of a call whose document is still as it was loaded. -/
theorem Phase.exists_current {id : Id} (h : Phase service jobs σ i) (hs : σ.store.Lawful)
    (htarget : (jobs i).request.target? = some id) {step : Step}
    {next : step.Reply → Program (jobs i).Answer} {reply : step.Reply} {t : Store}
    (hrest : σ.rest i = .request step next) (hreplies : σ.store.Replies step reply t)
    (hcommits : (Exchange.mk σ.store step reply t).commits = true) :
    ∃ d ∈ σ.loads i, (jobs i).request.target? = some d.id ∧ ¬ σ.store.Outdates d := by
  cases h with
  | idle own rest =>
    rcases Service.loads_serve service (jobs i).call htarget with ⟨f, hdone⟩ | ⟨_, _, hloads, -⟩
    · cases hrest.symm.trans (rest.trans hdone)
    · cases hrest.symm.trans (rest.trans hloads)
      cases hcommits
  | waiting pending reads rest =>
    obtain ⟨_, _, hwaits, -⟩ := rest
    cases hrest.symm.trans hwaits
    cases hcommits
  | @writing d _ _ pending rest =>
    obtain ⟨_, hwrites, -⟩ := rest.request
    cases hrest.symm.trans hwrites
    cases reply with
    | error f => cases (Bool.and_false _).symm.trans hcommits
    | ok a =>
      obtain ⟨f, hrewrites⟩ := hs.toKeyed.exists_rewrites pending.guards
        (Prod.ext_iff.mp hreplies.perform_eq).1
      refine ⟨d, ?_, pending.target, hrewrites.not_outdates hs.toKeyed⟩
      rw [pending.loads]
      exact List.mem_singleton_self d
  | failed keeps rest => cases hrest.symm.trans rest
  | committed loads once rest => cases hrest.symm.trans rest

/-- A clock that never goes back, with leap seconds where they belong. -/
structure Steady (clock : Nat → Instant) : Prop where
  forward : ∀ k l, k ≤ l → (clock k).le (clock l) = true
  regular : ∀ k, (clock k).Regular

/-- A clock shows a time after each number of requests. A call that changes a status has read the
time before its write and after its earlier requests, in particular after it loaded the document. -/
def StampsChanges (jobs : ι → Job) (clock : Nat → Instant)
    (σ : Course ι fun i => (jobs i).Answer) : Prop :=
  ∀ n i x, σ.trace[n]? = some (i, x) → x.commits = true → (jobs i).request.changesStatus = true →
    ∃ k ≤ n, (jobs i).call.now = clock k ∧ ∀ m < n, ∀ e, σ.trace[m]? = some (i, e) → m < k

omit [DecidableEq ι] in
theorem stampsChanges_of_now {now : Instant} (h : ∀ i, (jobs i).call.now = now) :
    StampsChanges jobs (fun _ => now) σ :=
  fun n i _ _ _ _ => ⟨n, le_rfl, h i, fun _ hm _ _ => hm⟩

theorem getElem?_reply {e : Exchange} {p : Program (jobs i).Answer} {n : Nat} {q : ι × Exchange}
    (h : σ.trace[n]? = some q) : (σ.reply i e p).trace[n]? = some q := by
  rw [reply_trace, List.getElem?_append_left (List.getElem?_eq_some_iff.mp h).1, h]

theorem StampsChanges.of_move {clock : Nat → Instant} (h : Move σ τ)
    (hread : StampsChanges jobs clock τ) : StampsChanges jobs clock σ := by
  obtain ⟨-, -⟩ := h
  intro n j x hx hcommits hrequest
  obtain ⟨k, hk, hnow, hlater⟩ := hread n j x (getElem?_reply hx) hcommits hrequest
  exact ⟨k, hk, hnow, fun m hm e he => hlater m hm e (getElem?_reply he)⟩

/-- What was loaded is followed up, is out of date once the document was changed, and changes are
made in the order of their times. -/
structure Successive (jobs : ι → Job) (σ : Course ι fun i => (jobs i).Answer) : Prop where
  tracks : ∀ p ∈ σ.trace, ∀ d ∈ p.2.load?, σ.store.Tracks d
  outdates : σ.trace.Pairwise fun p q => ∀ d ∈ p.2.load?, q.2.commits = true →
    (jobs q.1).request.target? = some d.id → σ.store.Outdates d
  times : (writers jobs σ).Pairwise fun i j =>
    (jobs i).request.target? = (jobs j).request.target? →
      (jobs i).call.now.le (jobs j).call.now = true

omit [DecidableEq ι] in
theorem successive_start {s : Store} :
    Successive jobs (.start s fun i => (jobs i).program service) :=
  { tracks := fun _ hp => absurd hp List.not_mem_nil
    outdates := .nil
    times := .nil }

theorem exists_trace_of_mem_writers (hj : j ∈ writers jobs σ) :
    (jobs j).request.changesStatus = true ∧
      ∃ (n : Nat) (y : Exchange), σ.trace[n]? = some (j, y) ∧ y.commits = true := by
  obtain ⟨hcommitted, hrequest⟩ := List.mem_filter.mp hj
  obtain ⟨y, hy, hcommits⟩ := mem_committed_iff.mp hcommitted
  obtain ⟨n, hn⟩ := List.mem_iff_getElem?.mp (mem_own_iff.mp hy)
  exact ⟨hrequest, n, y, hn, hcommits⟩

theorem exists_trace_of_mem_loads (hd : d ∈ σ.loads i) :
    ∃ (n : Nat) (x : Exchange), σ.trace[n]? = some (i, x) ∧ x.load? = some d := by
  obtain ⟨x, hx, hload⟩ := List.mem_filterMap.mp hd
  obtain ⟨n, hn⟩ := List.mem_iff_getElem?.mp (mem_own_iff.mp hx)
  exact ⟨n, x, hn, hload⟩

omit [DecidableEq ι] in
theorem Successive.outdates_of_lt (hσ : Successive jobs σ) {m n : Nat} {x y : Exchange}
    (hx : σ.trace[m]? = some (i, x)) (hy : σ.trace[n]? = some (j, y)) (hlt : m < n)
    (hload : x.load? = some d) (hcommits : y.commits = true)
    (htarget : (jobs j).request.target? = some d.id) : σ.store.Outdates d := by
  obtain ⟨hm, hx⟩ := List.getElem?_eq_some_iff.mp hx
  obtain ⟨hn, hy⟩ := List.getElem?_eq_some_iff.mp hy
  have hpair := List.pairwise_iff_getElem.mp hσ.outdates m n hm hn hlt
  rw [hx, hy] at hpair
  exact hpair d hload hcommits htarget

/-- Whoever has changed a document before had done so when the call that changes it now had loaded
it, and so had read the clock before this call did. -/
theorem Successive.le_now {e : Exchange} {p : Program (jobs i).Answer} {clock : Nat → Instant}
    (hσ : Successive jobs σ) (hclock : Steady clock)
    (hread : StampsChanges jobs clock (σ.reply i e p)) (hcommits : e.commits = true)
    (hrequest : (jobs i).request.changesStatus = true) (hd : d ∈ σ.loads i)
    (htarget : (jobs i).request.target? = some d.id) (hcurrent : ¬ σ.store.Outdates d)
    (hj : j ∈ writers jobs σ) (hsame : (jobs j).request.target? = (jobs i).request.target?) :
    (jobs j).call.now.le (jobs i).call.now = true := by
  obtain ⟨hrequest', n, y, hy, hcommits'⟩ := exists_trace_of_mem_writers hj
  obtain ⟨m, x, hx, hload⟩ := exists_trace_of_mem_loads hd
  obtain ⟨k, -, hnow, hlater⟩ :=
    hread σ.trace.length i e (List.getElem?_concat_length) hcommits hrequest
  obtain ⟨l, hl, hnow', -⟩ := hread n j y (getElem?_reply hy) hcommits' hrequest'
  have hm : m < σ.trace.length := (List.getElem?_eq_some_iff.mp hx).1
  have hk : m < k := hlater m hm x (getElem?_reply hx)
  have hle : n ≤ m := by
    apply Nat.not_lt.mp
    intro hlt
    exact hcurrent (hσ.outdates_of_lt hx hy hlt hload hcommits' (hsame.trans htarget))
  rw [hnow, hnow']
  apply hclock.forward
  omega

theorem Successive.move {clock : Nat → Instant} (h : Move σ τ) (hstaged : Staged service jobs σ)
    (hσ : Successive jobs σ) (hclock : Steady clock) (hread : StampsChanges jobs clock τ) :
    Successive jobs τ := by
  obtain ⟨hrest, hreplies⟩ := h
  rename_i i step next reply t
  obtain ⟨hrevision, htracks, houtdates, -⟩ := hstaged.revision hrest hreplies
  constructor
  case tracks =>
    intro p hp d hd
    rcases List.mem_append.mp hp with hp | hp
    · exact htracks d (hσ.tracks p hp d hd)
    · obtain rfl := List.mem_singleton.mp hp
      exact hreplies.tracks_of_load hd
  case outdates =>
    apply List.pairwise_append.mpr
    refine ⟨hσ.outdates.imp fun h d hd hcommits htarget => houtdates d (h d hd hcommits htarget),
      List.pairwise_singleton _ _, ?_⟩
    intro p hp q hq d hd hcommits htarget
    obtain rfl := List.mem_singleton.mp hq
    cases hrevision with
    | none quiet => cases (quiet (Request.revises_of_target? htarget)).symm.trans hcommits
    | some commits revises =>
      exact revises.outdates hstaged.lawful.toKeyed htarget (hσ.tracks p hp d hd)
  case times =>
    by_cases hwrites : (Exchange.mk σ.store step reply t).commits = true ∧
        (jobs i).request.changesStatus = true
    · obtain ⟨hcommits, hrequest⟩ := hwrites
      obtain ⟨id, htarget⟩ := Request.exists_target_of_changesStatus hrequest
      obtain ⟨d, hd, htarget, hcurrent⟩ :=
        (hstaged.phase i id htarget).exists_current hstaged.lawful htarget hrest hreplies hcommits
      rw [writers_reply_of_commits hcommits hrequest]
      apply List.pairwise_append.mpr
      refine ⟨hσ.times, List.pairwise_singleton _ _, ?_⟩
      intro j hj k hk hsame
      obtain rfl := List.mem_singleton.mp hk
      exact hσ.le_now hclock hread hcommits hrequest hd htarget hcurrent hj hsame
    · rw [writers_reply_of_quiet hwrites]
      exact hσ.times

theorem successive_of_reaches {clock : Nat → Instant}
    (h : Reaches (.start {} fun i => (jobs i).program service) σ) (hclock : Steady clock)
    (hread : StampsChanges jobs clock σ) : Successive jobs σ := by
  induction h with
  | refl => exact successive_start
  | tail h hmove ih =>
    have hstaged := staged_of_reaches h (staged_start lawful_empty)
    exact (ih (hread.of_move hmove)).move hmove hstaged hclock hread

theorem Balanced.stamps (hσ : Balanced service jobs σ) :
    σ.store.changes.map (fun c => (some c.document, c.changed.time))
      = (writers jobs σ).map fun i => ((jobs i).request.target?, (jobs i).call.now) := by
  rw [← List.forall₂_eq_eq_eq, List.forall₂_map_left_iff, List.forall₂_map_right_iff]
  apply hσ.records.flip.imp
  rintro c i ⟨d, target, reason, hrequest, rfl⟩
  rw [hrequest]
  rfl

theorem pairwise_le_of_reaches {clock : Nat → Instant}
    (h : Reaches (.start {} fun i => (jobs i).program service) σ) (hclock : Steady clock)
    (hread : StampsChanges jobs clock σ) :
    σ.store.changes.Pairwise fun a b =>
      a.document = b.document → a.changed.time.le b.changed.time = true := by
  have hpairs : ((writers jobs σ).map fun i =>
      ((jobs i).request.target?, (jobs i).call.now)).Pairwise fun p q =>
        p.1 = q.1 → p.2.le q.2 = true :=
    List.pairwise_map.mpr (successive_of_reaches h hclock hread).times
  rw [← (balanced_of_reaches h).stamps, List.pairwise_map] at hpairs
  exact hpairs.imp fun h hid => h (congrArg some hid)

end Docket
