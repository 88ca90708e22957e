import Docket.Proofs.Commits
import Docket.Proofs.Conduct
import Docket.Proofs.Dates

/-! # Changes of documents in a row

Calls that change documents may be under way at the same time and yet have the effect of some of
them run one after another: those whose writes went through, in the order in which they did. Each
of them has loaded what the one before it left. The others write nothing.
-/

namespace Docket

open Store Issuing Simulation

section Run

open Course

variable {ι : Type} [DecidableEq ι] {service : Service} {jobs : ι → Job}

/-- The effect of calls run alone, one after another, each from the document that it has loaded
in the course of events, and with the answer that it has there. -/
inductive Serial (service : Service) (jobs : ι → Job) (σ : Course ι fun i => (jobs i).Answer)
    (s : Store) : List ι → Store → Prop
  | nil : Serial service jobs σ s [] s
  | snoc {is : List ι} {t u : Store} {i : ι} {d : Document}
      {outcome : Outcome (jobs i).request.Answer} (earlier : Serial service jobs σ s is t)
      (loaded : d ∈ σ.loads i) (current : t.findDocument d.tenant d.id = .ok (some d))
      (alone : ((jobs i).program service).run t = (.ok outcome, u))
      (answered : σ.rest i = .done (.ok outcome)) : Serial service jobs σ s (is ++ [i]) u

variable {σ τ : Course ι fun i => (jobs i).Answer} {i : ι} {d : Document} {step : Step}
  {g : step.Result → Outcome (jobs i).request.Answer}

/-- A call that has loaded a document and written nothing yet. -/
structure Pending (service : Service) (jobs : ι → Job) (σ : Course ι fun i => (jobs i).Answer)
    (i : ι) (d : Document) (step : Step) (g : step.Result → Outcome (jobs i).request.Answer) :
    Prop where
  loads : σ.loads i = [d]
  target : (jobs i).request.target? = some d.id
  tracks : σ.store.Tracks d
  keeps : ∀ e ∈ σ.own i, e.Keeps
  guards : step.Guards d
  /-- What the call would do if it was run on its own. -/
  alone : ∀ s : Store, s.findDocument d.tenant d.id = .ok (some d) →
    ((jobs i).program service).run s = Program.outcome g (s.perform step)

/-- How far a call that changes a document has come. -/
inductive Phase (service : Service) (jobs : ι → Job) (σ : Course ι fun i => (jobs i).Answer)
    (i : ι) : Prop
  | idle (own : σ.own i = []) (rest : σ.rest i = (jobs i).program service)
  | waiting {d : Document} {step : Step} {g : step.Result → Outcome (jobs i).request.Answer}
      (pending : Pending service jobs σ i d step g)
      (reads : ∀ e ∈ σ.own i, Scene.isWrite e.step = false)
      (rest : Program.Waits step g (σ.rest i))
  | writing {d : Document} {step : Step} {g : step.Result → Outcome (jobs i).request.Answer}
      (pending : Pending service jobs σ i d step g) (rest : Program.Writes step g (σ.rest i))
  | failed {f : Failure} (keeps : ∀ e ∈ σ.own i, e.Keeps)
      (rest : σ.rest i = .done (.error f))
      (cause : ∀ w ∈ σ.own i, Scene.isWrite w.step = true →
        ∃ e ∈ σ.own i, ∃ d failure, (jobs i).request.target? = some d.id ∧ e.step.Guards d ∧
          e.before.Lawful ∧ e.reply = .error failure ∧ f = failure.toFailure)
  | committed {d : Document} {outcome : Outcome (jobs i).request.Answer} (loads : σ.loads i = [d])
      (once : (σ.own i).countP Exchange.commits = 1) (rest : σ.rest i = .done (.ok outcome))
      (outdates : σ.store.Outdates d)

theorem Pending.of_other {j : ι} (h : Pending service jobs σ i d step g) (hj : i ≠ j)
    {e : Exchange} {p : Program (jobs j).Answer}
    (htracks : ∀ d, σ.store.Tracks d → e.after.Tracks d) :
    Pending service jobs (σ.reply j e p) i d step g :=
  { loads := (loads_reply_of_ne hj).trans h.loads
    target := h.target
    tracks := htracks d h.tracks
    keeps := by rw [own_reply_of_ne hj]; exact h.keeps
    guards := h.guards
    alone := h.alone }

theorem Phase.of_other {j : ι} (h : Phase service jobs σ i) (hj : i ≠ j) {e : Exchange}
    {p : Program (jobs j).Answer} (htracks : ∀ d, σ.store.Tracks d → e.after.Tracks d)
    (houtdates : ∀ d, σ.store.Outdates d → e.after.Outdates d) :
    Phase service jobs (σ.reply j e p) i := by
  have hown : (σ.reply j e p).own i = σ.own i := own_reply_of_ne hj
  have hrest : (σ.reply j e p).rest i = σ.rest i := reply_rest_of_ne hj
  cases h with
  | idle own rest => exact .idle (hown.trans own) (hrest.trans rest)
  | waiting pending reads rest =>
    exact .waiting (pending.of_other hj htracks) (hown ▸ reads) (hrest ▸ rest)
  | writing pending rest => exact .writing (pending.of_other hj htracks) (hrest ▸ rest)
  | failed keeps rest cause => exact .failed (hown ▸ keeps) (hrest.trans rest) (hown ▸ cause)
  | committed loads once rest outdates =>
    exact .committed ((loads_reply_of_ne hj).trans loads) (hown ▸ once) (hrest.trans rest)
      (houtdates _ outdates)

/-- What the next exchange of a call comes to: either it writes nothing, or it is a write that goes
through and does what the call would do on its own. -/
inductive Furthers (service : Service) (jobs : ι → Job) (σ : Course ι fun i => (jobs i).Answer)
    (i : ι) (e : Exchange) (p : Program (jobs i).Answer) : Prop
  | keeps (commits : e.commits = false) (after : e.after = σ.store)
      (phase : Phase service jobs (σ.reply i e p) i)
  | commits {d : Document} {f : DocumentRow → DocumentRow}
      {outcome : Outcome (jobs i).request.Answer} (commits : e.commits = true)
      (loads : (σ.reply i e p).loads i = [d]) (rewrites : σ.store.Rewrites d e.after f)
      (current : σ.store.findDocument d.tenant d.id = .ok (some d))
      (alone : ((jobs i).program service).run σ.store = (.ok outcome, e.after))
      (answer : p = .done (.ok outcome)) (phase : Phase service jobs (σ.reply i e p) i)

variable {next : step.Reply → Program (jobs i).Answer} {reply : step.Reply} {t : Store}

theorem phase_of_failed_read {e : Exchange} {f : Failure} {p : Program (jobs i).Answer}
    (hkeeps : ∀ x ∈ σ.own i, x.Keeps) (hreads : ∀ x ∈ σ.own i, Scene.isWrite x.step = false)
    (he : e.Keeps) (hread : Scene.isWrite e.step = false) (hp : p = .done (.error f)) :
    Phase service jobs (σ.reply i e p) i := by
  refine .failed (all_own_reply hkeeps he) (reply_rest_self.trans hp) fun w hw hwrite => ?_
  exact absurd ((all_own_reply hreads hread w hw).symm.trans hwrite) Bool.false_ne_true

theorem phase_of_loaded {tenant id : Id}
    {next : (Step.findDocument tenant id).Reply → Program (jobs i).Answer}
    (htarget : (jobs i).request.target? = some id) (hown : σ.own i = [])
    (hprogram : (jobs i).program service = .request (.findDocument tenant id) next)
    (hfind : σ.store.findDocument tenant id = .ok (some d)) (hguards : step.Guards d)
    (hready : Program.Writes step g (next (.ok (some d))) ∨
      Program.Waits step g (next (.ok (some d)))) :
    Phase service jobs (σ.reply i ⟨σ.store, .findDocument tenant id, .ok (some d), σ.store⟩
      (next (.ok (some d)))) i := by
  obtain ⟨rfl, rfl, -⟩ := of_findDocument hfind
  have hkeeps : ∀ x ∈ σ.own i, x.Keeps := by simp [hown]
  have hreads : ∀ x ∈ σ.own i, Scene.isWrite x.step = false := by simp [hown]
  have hpending : Pending service jobs
      (σ.reply i ⟨σ.store, .findDocument d.tenant d.id, .ok (some d), σ.store⟩
        (next (.ok (some d)))) i d step g :=
    { loads := by rw [loads_reply_self, loads, hown]; rfl
      target := htarget
      tracks := tracks_of_findDocument hfind
      keeps := all_own_reply hkeeps (Exchange.keeps_of_read rfl rfl)
      guards := hguards
      alone := fun s hs => by
        rw [hprogram, Program.run_request]
        change (next (s.findDocument d.tenant d.id)).run s = _
        rw [hs]
        exact Program.run_of_guards hguards hready }
  rcases hready with hwrites | hwaits
  · refine .writing hpending ?_
    rw [reply_rest_self]
    exact hwrites
  · refine .waiting hpending (all_own_reply hreads rfl) ?_
    rw [reply_rest_self]
    exact hwaits

theorem furthers_of_idle {id : Id} (htarget : (jobs i).request.target? = some id)
    (hown : σ.own i = []) (hprogram : σ.rest i = (jobs i).program service)
    (hrest : σ.rest i = .request step next) (hreplies : σ.store.Replies step reply t) :
    Furthers service jobs σ i ⟨σ.store, step, reply, t⟩ (next reply) := by
  rcases Service.loads_serve service (jobs i).call htarget with
    ⟨f, hdone⟩ | ⟨tenant, next', hloads, hnone, hsome⟩
  · cases hrest.symm.trans (hprogram.trans hdone)
  · cases hrest.symm.trans (hprogram.trans hloads)
    obtain rfl : t = σ.store := hreplies.of_read rfl
    have hkeeps : (Exchange.mk σ.store (.findDocument tenant id) reply σ.store).Keeps :=
      Exchange.keeps_of_read rfl rfl
    have hfailed : ∀ f, next' reply = .done (.error f) → Phase service jobs
        (σ.reply i ⟨σ.store, .findDocument tenant id, reply, σ.store⟩ (next' reply)) i :=
      fun f hf => phase_of_failed_read (by simp [hown]) (by simp [hown]) hkeeps rfl hf
    refine .keeps hkeeps.1 rfl ?_
    obtain f | _ | d := reply
    · obtain ⟨e, he⟩ := hnone (.error f) rfl
      exact hfailed e he
    · obtain ⟨e, he⟩ := hnone (.ok none) rfl
      exact hfailed e he
    · have hfind : σ.store.findDocument tenant id = .ok (some d) :=
        (Prod.ext_iff.mp hreplies.perform_eq).1
      rcases hsome d with ⟨f, hf⟩ | ⟨step, g, hguards, hready⟩
      · exact hfailed f hf
      · exact phase_of_loaded htarget hown hloads hfind hguards hready

theorem Pending.of_kept (h : Pending service jobs σ i d step g) {e : Exchange}
    {p : Program (jobs i).Answer} (hload : e.load? = none) (he : e.Keeps)
    (hafter : e.after = σ.store) : Pending service jobs (σ.reply i e p) i d step g :=
  { loads := by rw [loads_reply_self, h.loads, hload]; rfl
    target := h.target
    tracks := by rw [reply_store, hafter]; exact h.tracks
    keeps := all_own_reply h.keeps he
    guards := h.guards
    alone := h.alone }

theorem furthers_of_waiting {step' : Step} {g : step'.Result → Outcome (jobs i).request.Answer}
    (hpending : Pending service jobs σ i d step' g)
    (hreads : ∀ e ∈ σ.own i, Scene.isWrite e.step = false)
    (hwaits : Program.Waits step' g (σ.rest i)) (hrest : σ.rest i = .request step next)
    (hreplies : σ.store.Replies step reply t) :
    Furthers service jobs σ i ⟨σ.store, step, reply, t⟩ (next reply) := by
  obtain ⟨stream, next', hnext, hwrites, herror⟩ := hwaits
  cases hrest.symm.trans hnext
  obtain rfl : t = σ.store := hreplies.of_read rfl
  have hkeeps : (Exchange.mk σ.store (.acquire stream) reply σ.store).Keeps :=
    Exchange.keeps_of_read rfl rfl
  refine .keeps hkeeps.1 rfl ?_
  cases reply with
  | ok u =>
    refine .writing (hpending.of_kept rfl hkeeps rfl) ?_
    rw [reply_rest_self]
    exact hwrites
  | error f => exact phase_of_failed_read hpending.keeps hreads hkeeps rfl (herror f)

theorem Step.Guards.load?_eq_none (h : step.Guards d) (reply : step.Reply) :
    step.load? reply = none := by
  cases step with
  | assignNumber | applyChange => rfl
  | _ => exact h.elim

theorem furthers_of_writing (hs : σ.store.Lawful) {step' : Step}
    {g : step'.Result → Outcome (jobs i).request.Answer}
    (hpending : Pending service jobs σ i d step' g) (hwrites : Program.Writes step' g (σ.rest i))
    (hrest : σ.rest i = .request step next) (hreplies : σ.store.Replies step reply t) :
    Furthers service jobs σ i ⟨σ.store, step, reply, t⟩ (next reply) := by
  obtain ⟨next', hnext, hok, herror⟩ := hwrites.request
  cases hrest.symm.trans hnext
  cases reply with
  | ok a =>
    have hperform := hreplies.perform_eq
    obtain ⟨f, hrewrites⟩ := hs.toKeyed.exists_rewrites hpending.guards
      (Prod.ext_iff.mp hperform).1
    rw [hperform] at hrewrites
    have hcurrent := hrewrites.findDocument_self hs.toKeyed hpending.tracks
    have halone := hpending.alone σ.store hcurrent
    rw [hperform] at halone
    have hcommits : (Exchange.mk σ.store step (.ok a) t).commits = true := by
      rw [Exchange.commits, hpending.guards.isWrite]
      rfl
    have hloads : (σ.reply i ⟨σ.store, step, .ok a, t⟩ (next (.ok a))).loads i = [d] := by
      have hload : (Exchange.mk σ.store step (.ok a) t).load? = none :=
        hpending.guards.load?_eq_none _
      rw [loads_reply_self, hpending.loads, hload]
      rfl
    refine .commits hcommits hloads hrewrites hcurrent halone (hok a) ?_
    refine .committed hloads ?_ (reply_rest_self.trans (hok a)) hrewrites.outdates_self
    have hown : (σ.own i).countP Exchange.commits = 0 :=
      List.countP_eq_zero.mpr fun e he => by
        rw [(hpending.keeps e he).1]
        exact Bool.false_ne_true
    rw [own_reply_self, List.countP_append, hown, List.countP_singleton, hcommits]
    rfl
  | error f =>
    have hafter : t = σ.store :=
      hreplies.of_error fun f h => perform_of_guards_error hpending.guards h
    have hcommits : (Exchange.mk σ.store step (.error f) t).commits = false :=
      Bool.and_false _
    have hpending' : Pending service jobs
        (σ.reply i ⟨σ.store, step, .error f, t⟩ (next (.error f))) i d step g :=
      hpending.of_kept (hpending.guards.load?_eq_none _) ⟨hcommits, hafter⟩ hafter
    refine .keeps hcommits hafter ?_
    rcases herror f with hdone | hwrites
    · refine .failed hpending'.keeps (reply_rest_self.trans hdone) fun w _ _ => ?_
      refine ⟨⟨σ.store, step, .error f, t⟩, ?_, d, f, hpending.target, hpending.guards, hs, rfl,
        rfl⟩
      rw [own_reply_self]
      exact List.mem_append_right _ (List.mem_singleton_self _)
    · refine .writing hpending' ?_
      rw [reply_rest_self]
      exact hwrites

theorem Phase.furthers {id : Id} (h : Phase service jobs σ i) (hs : σ.store.Lawful)
    (htarget : (jobs i).request.target? = some id) (hrest : σ.rest i = .request step next)
    (hreplies : σ.store.Replies step reply t) :
    Furthers service jobs σ i ⟨σ.store, step, reply, t⟩ (next reply) := by
  cases h with
  | idle own rest => exact furthers_of_idle htarget own rest hrest hreplies
  | waiting pending reads rest => exact furthers_of_waiting pending reads rest hrest hreplies
  | writing pending rest => exact furthers_of_writing hs pending rest hrest hreplies
  | failed keeps rest => cases hrest.symm.trans rest
  | committed loads once rest => cases hrest.symm.trans rest

theorem Serial.mono {s t : Store} {is : List ι} (h : Serial service jobs σ s is t)
    (hloads : ∀ i, ∀ d ∈ σ.loads i, d ∈ τ.loads i)
    (hrest : ∀ i a, σ.rest i = .done a → τ.rest i = .done a) : Serial service jobs τ s is t := by
  induction h with
  | nil => exact .nil
  | snoc _ loaded current alone answered ih =>
    exact .snoc ih (hloads _ _ loaded) current alone (hrest _ _ answered)

/-- The calls whose writes went through explain the store, and no two of them have loaded the same
version of a document. -/
structure Serialized (service : Service) (jobs : ι → Job) (s : Store)
    (σ : Course ι fun i => (jobs i).Answer) : Prop where
  lawful : σ.store.Lawful
  phase : ∀ i, Phase service jobs σ i
  serial : Serial service jobs σ s σ.committed σ.store
  versions : ∀ i ∈ σ.committed, ∀ j ∈ σ.committed, ∀ d ∈ σ.loads i, ∀ e ∈ σ.loads j,
    d.id = e.id → d.version = e.version → i = j

theorem Phase.of_mem_committed (h : Phase service jobs σ i) (hi : i ∈ σ.committed) :
    ∃ d outcome, σ.loads i = [d] ∧ (σ.own i).countP Exchange.commits = 1 ∧
      σ.rest i = .done (.ok outcome) ∧ σ.store.Outdates d := by
  obtain ⟨e, he, hcommits⟩ := mem_committed_iff.mp hi
  cases h with
  | idle own =>
    rw [own] at he
    exact absurd he List.not_mem_nil
  | waiting pending => cases (pending.keeps e he).1.symm.trans hcommits
  | writing pending => cases (pending.keeps e he).1.symm.trans hcommits
  | failed keeps => cases (keeps e he).1.symm.trans hcommits
  | committed loads once rest outdates => exact ⟨_, _, loads, once, rest, outdates⟩

section Reply

variable {s : Store} {e : Exchange} {p : Program (jobs i).Answer}

theorem Serialized.ne_of_mem_committed (hσ : Serialized service jobs s σ)
    (hrest : σ.rest i = .request step next) : ∀ j ∈ σ.committed, j ≠ i := by
  rintro j hj rfl
  obtain ⟨_, _, -, -, hdone, -⟩ := (hσ.phase j).of_mem_committed hj
  cases hrest.symm.trans hdone

theorem Serialized.serial_reply (hσ : Serialized service jobs s σ)
    (hrest : σ.rest i = .request step next) :
    Serial service jobs (σ.reply i e p) s σ.committed σ.store :=
  hσ.serial.mono (fun _ _ hd => mem_loads_reply hd) fun _ _ ha => done_reply hrest ha

theorem Serialized.versions_reply (hσ : Serialized service jobs s σ)
    (hrest : σ.rest i = .request step next) :
    ∀ j ∈ σ.committed, ∀ k ∈ σ.committed, ∀ x ∈ (σ.reply i e p).loads j,
      ∀ y ∈ (σ.reply i e p).loads k, x.id = y.id → x.version = y.version → j = k := by
  intro j hj k hk
  have hne := hσ.ne_of_mem_committed hrest
  rw [loads_reply_of_ne (hne j hj), loads_reply_of_ne (hne k hk)]
  exact hσ.versions j hj k hk

/-- What was loaded by those who have committed is older than what is found now. -/
theorem Serialized.version_ne (hσ : Serialized service jobs s σ) {f : DocumentRow → DocumentRow}
    (hrewrites : σ.store.Rewrites d t f) {j : ι} (hj : j ∈ σ.committed) {x : Document}
    (hx : x ∈ σ.loads j) (hid : x.id = d.id) : x.version ≠ d.version := by
  obtain ⟨_, _, hloads, -, -, r, hr, hrid, hlt⟩ := (hσ.phase j).of_mem_committed hj
  rw [hloads] at hx
  obtain rfl := List.mem_singleton.mp hx
  obtain ⟨q, hq, hqid, -, hqversion⟩ := hrewrites.matched
  rw [hσ.lawful.document_eq hr hq (hrid.trans (hid.trans hqid.symm)), hqversion] at hlt
  exact Int.ne_of_lt hlt

theorem Serialized.of_keeps (hσ : Serialized service jobs s σ)
    (hrest : σ.rest i = .request step next) (hcommits : e.commits = false)
    (hafter : e.after = σ.store) (hphase : Phase service jobs (σ.reply i e p) i) :
    Serialized service jobs s (σ.reply i e p) := by
  have hcommitted : (σ.reply i e p).committed = σ.committed := by
    rw [committed_reply, hcommits]
    rfl
  refine ⟨?_, fun j => ?_, ?_, ?_⟩
  · rw [reply_store, hafter]
    exact hσ.lawful
  · by_cases hj : j = i
    · exact hj ▸ hphase
    · exact (hσ.phase j).of_other hj (fun _ h => hafter ▸ h) fun _ h => hafter ▸ h
  · rw [hcommitted, reply_store, hafter]
    exact hσ.serial_reply hrest
  · rw [hcommitted]
    exact hσ.versions_reply hrest

theorem Serialized.of_commits (hσ : Serialized service jobs s σ)
    (hrest : σ.rest i = .request step next) (hlawful : e.after.Lawful)
    {f : DocumentRow → DocumentRow} {outcome : Outcome (jobs i).request.Answer}
    (hcommits : e.commits = true) (hloads : (σ.reply i e p).loads i = [d])
    (hrewrites : σ.store.Rewrites d e.after f)
    (hcurrent : σ.store.findDocument d.tenant d.id = .ok (some d))
    (halone : ((jobs i).program service).run σ.store = (.ok outcome, e.after))
    (hanswer : p = .done (.ok outcome)) (hphase : Phase service jobs (σ.reply i e p) i) :
    Serialized service jobs s (σ.reply i e p) := by
  have hcommitted : (σ.reply i e p).committed = σ.committed ++ [i] := by
    rw [committed_reply, hcommits]
    rfl
  have hnew : ∀ j ∈ σ.committed, ∀ x ∈ (σ.reply i e p).loads j, x.id = d.id →
      x.version ≠ d.version := by
    intro j hj
    rw [loads_reply_of_ne (hσ.ne_of_mem_committed hrest j hj)]
    exact fun x hx => hσ.version_ne hrewrites hj hx
  refine ⟨hlawful, fun j => ?_, ?_, ?_⟩
  · by_cases hj : j = i
    · exact hj ▸ hphase
    · exact (hσ.phase j).of_other hj (fun _ h => hrewrites.tracks hσ.lawful.toKeyed h)
        fun _ h => hrewrites.outdates h
  · rw [hcommitted]
    exact .snoc (hσ.serial_reply hrest) (hloads ▸ List.mem_singleton_self d) hcurrent halone
      (reply_rest_self.trans hanswer)
  · rw [hcommitted]
    intro j hj k hk x hx y hy hid hversion
    rcases List.mem_append.mp hj with hj | hj <;> rcases List.mem_append.mp hk with hk | hk
    · exact hσ.versions_reply hrest j hj k hk x hx y hy hid hversion
    · rw [List.mem_singleton.mp hk, hloads] at hy
      rw [List.mem_singleton.mp hy] at hid hversion
      exact absurd hversion (hnew j hj x hx hid)
    · rw [List.mem_singleton.mp hj, hloads] at hx
      rw [List.mem_singleton.mp hx] at hid hversion
      exact absurd hversion.symm (hnew k hk y hy hid.symm)
    · rw [List.mem_singleton.mp hj, List.mem_singleton.mp hk]

end Reply

theorem Serialized.move {s : Store} (h : Course.Move σ τ) (hσ : Serialized service jobs s σ)
    (hjobs : ∀ i, ∃ id, (jobs i).request.target? = some id) : Serialized service jobs s τ := by
  obtain ⟨hrest, hreplies⟩ := h
  rename_i i step next reply t
  obtain ⟨id, htarget⟩ := hjobs i
  cases (hσ.phase i).furthers hσ.lawful htarget hrest hreplies with
  | keeps commits after phase => exact hσ.of_keeps hrest commits after phase
  | commits commits loads rewrites current alone answer phase =>
    exact hσ.of_commits hrest (hreplies.lawful hσ.lawful) commits loads rewrites current alone
      answer phase

theorem serialized_of_reaches {s : Store} (h : Reaches σ τ) (hσ : Serialized service jobs s σ)
    (hjobs : ∀ i, ∃ id, (jobs i).request.target? = some id) : Serialized service jobs s τ := by
  induction h with
  | refl => exact hσ
  | tail _ h ih => exact ih.move h hjobs

theorem serialized_start {s : Store} (hs : s.Lawful) :
    Serialized service jobs s (.start s fun i => (jobs i).program service) :=
  { lawful := hs
    phase := fun _ => .idle rfl rfl
    serial := .nil
    versions := fun _ hi => absurd hi List.not_mem_nil }

theorem Phase.mem_committed {id : Id} {outcome : Outcome (jobs i).request.Answer}
    (h : Phase service jobs σ i) (htarget : (jobs i).request.target? = some id)
    (hdone : σ.rest i = .done (.ok outcome)) : i ∈ σ.committed := by
  cases h with
  | idle own rest =>
    rcases Service.loads_serve service (jobs i).call htarget with ⟨f, hf⟩ | ⟨_, _, hloads, -⟩
    · cases Program.done.inj (hdone.symm.trans (rest.trans hf))
    · cases hdone.symm.trans (rest.trans hloads)
  | waiting pending reads rest =>
    obtain ⟨_, _, hrest, -⟩ := rest
    cases hdone.symm.trans hrest
  | writing pending rest =>
    obtain ⟨_, hrest, -⟩ := rest.request
    cases hdone.symm.trans hrest
  | failed keeps rest => cases Program.done.inj (hdone.symm.trans rest)
  | committed loads once =>
    obtain ⟨e, he, hcommits⟩ := List.countP_pos_iff.mp (once ▸ Nat.one_pos)
    exact mem_committed_iff.mpr ⟨e, he, hcommits⟩

/-- Who ends without having committed has found the document changed, if nothing else was in the way
of its write. -/
theorem Phase.stale {id : Id} {a : (jobs i).Answer} (h : Phase service jobs σ i)
    (htarget : (jobs i).request.target? = some id) (hi : i ∉ σ.committed)
    (hdone : σ.rest i = .done a) {w : Exchange} (hw : w ∈ σ.own i)
    (hwrite : Scene.isWrite w.step = true) (hserved : ∀ e ∈ σ.own i, e.Served)
    (hadmits : ∀ e ∈ σ.own i, ∀ a ∈ Scene.allocation? e.step, e.before.Admits a ∧ a.year ≠ 0) :
    a = .error (.error (.concurrentModification id)) := by
  cases h with
  | idle own =>
    rw [own] at hw
    exact absurd hw List.not_mem_nil
  | waiting pending reads => cases (reads w hw).symm.trans hwrite
  | writing pending rest =>
    obtain ⟨_, hrest, -⟩ := rest.request
    cases hdone.symm.trans hrest
  | committed loads once =>
    obtain ⟨e, he, hcommits⟩ := List.countP_pos_iff.mp (once ▸ Nat.one_pos)
    exact absurd (mem_committed_iff.mpr ⟨e, he, hcommits⟩) hi
  | failed keeps rest cause =>
    obtain ⟨e, he, d, failure, hd, hguards, hlawful, hreply, rfl⟩ := cause w hw hwrite
    have hperform : (e.before.perform e.step).1 = .error failure :=
      (congrArg Prod.fst (hserved e he)).trans hreply
    rcases hlawful.reply_of_guards hguards (hadmits e he) with ⟨b, hb⟩ | hstale
    · cases hb.symm.trans hperform
    · obtain rfl : StoreFailure.stale d.id = failure :=
        Except.error.inj (hstale.symm.trans hperform)
      obtain rfl := Option.some.inj (hd.symm.trans htarget)
      exact Program.done.inj (hdone.symm.trans rest)

theorem nodup_committed (h : ∀ i, Phase service jobs σ i) : σ.committed.Nodup := by
  rw [List.nodup_iff_count_le_one]
  intro i
  by_cases hi : i ∈ σ.committed
  · obtain ⟨_, _, -, honce, -⟩ := (h i).of_mem_committed hi
    exact Nat.le_of_eq (count_committed.trans honce)
  · rw [List.count_eq_zero_of_not_mem hi]
    exact Nat.zero_le 1

/-- No change of a document is lost: what calls that change documents come to, however their loads
and writes are interleaved. -/
structure NoLostUpdates (service : Service) (jobs : ι → Job) (s : Store)
    (σ : Course ι fun i => (jobs i).Answer) : Prop where
  /-- Documents, changes and counters are those of the calls that committed, run one after another
  in that order, each from exactly the document that it has loaded and with the same answer. -/
  serial : Serial service jobs σ s σ.committed σ.store
  nodup : σ.committed.Nodup
  succeeded : ∀ i, i ∈ σ.committed ↔ ∃ outcome, σ.rest i = .done (.ok outcome)
  /-- Of the calls that have loaded the same version at most one commits. -/
  versions : ∀ i ∈ σ.committed, ∀ j ∈ σ.committed, ∀ d ∈ σ.loads i, ∀ e ∈ σ.loads j,
    d.id = e.id → d.version = e.version → i = j
  /-- Any other call writes nothing. -/
  keeps : ∀ i, i ∉ σ.committed → ∀ e ∈ σ.own i, e.after = e.before
  /-- Any other call that has come to its write is told that the document was changed, unless it was
  refused a request, or the counters of its stream cannot be read or go on. A counter that it would
  add has an identifier of its own. -/
  stale : ∀ i id a, (jobs i).request.target? = some id → i ∉ σ.committed → σ.rest i = .done a →
    (∃ w ∈ σ.own i, Scene.isWrite w.step = true) → (∀ e ∈ σ.own i, e.Served) →
    (∀ e ∈ σ.own i, ∀ a ∈ Scene.allocation? e.step, e.before.plans a) →
    (∀ e ∈ σ.own i, ∀ r ∈ e.before.counters, r.id ≠ (jobs i).call.fresh) →
    a = .error (.error (.concurrentModification id))

theorem admits_of_asks {config : Config} {job : Job} {s : Store} {a : Issuing.Allocation}
    (hconfig : config.validate = .ok ()) (hclock : job.call.now.Readable)
    (hasks : job.request.Asks config.service job.call step) (ha : a ∈ Scene.allocation? step)
    (hplans : s.plans a) (hfresh : ∀ r ∈ s.counters, r.id ≠ job.call.fresh) :
    s.Admits a ∧ a.year ≠ 0 := by
  obtain ⟨stream, rfl⟩ := Request.allocation_of_asks hasks ha
  have hyear : 1970 ≤ job.call.now.year ∧ job.call.now.year ≤ 262142 := hclock.year_bounds
  refine ⟨⟨hplans, (Service.valid_of_validate hconfig).padding, ?_, hfresh⟩, ?_⟩
  · change -int32Bound ≤ job.call.now.year ∧ job.call.now.year < int32Bound
    unfold int32Bound
    omega
  · change job.call.now.year ≠ 0
    omega

/-- Calls that change documents lose no update. -/
theorem no_lost_updates {config : Config} {s : Store} (hconfig : config.validate = .ok ())
    (hs : s.Lawful) (hjobs : ∀ i, ∃ id, (jobs i).request.target? = some id)
    (hclock : ∀ i, (jobs i).call.now.Readable)
    (hσ : Reaches (.start s fun i => (jobs i).program config.service) σ) :
    NoLostUpdates config.service jobs s σ := by
  have h := serialized_of_reaches hσ (serialized_start hs) hjobs
  have hconducted := conducted_of_reaches hσ
  refine
    { serial := h.serial
      nodup := nodup_committed h.phase
      succeeded := fun i => ⟨fun hi => ?_, fun ⟨outcome, hdone⟩ => ?_⟩
      versions := h.versions
      keeps := fun i hi e he => ?_
      stale := fun i id a htarget hi hdone ⟨w, hw, hwrite⟩ hserved hplans hfresh =>
        (h.phase i).stale htarget hi hdone hw hwrite hserved fun e he a ha =>
          admits_of_asks hconfig (hclock i) (hconducted.asked i e (mem_own_iff.mp he)) ha
            (hplans e he a ha) (hfresh e he) }
  · obtain ⟨_, outcome, -, -, hdone, -⟩ := (h.phase i).of_mem_committed hi
    exact ⟨outcome, hdone⟩
  · obtain ⟨id, htarget⟩ := hjobs i
    exact (h.phase i).mem_committed htarget hdone
  · cases h.phase i with
    | idle own =>
      rw [own] at he
      exact absurd he List.not_mem_nil
    | waiting pending => exact (pending.keeps e he).2
    | writing pending => exact (pending.keeps e he).2
    | failed keeps => exact (keeps e he).2
    | committed loads once =>
      obtain ⟨e, he, hcommits⟩ := List.countP_pos_iff.mp (once ▸ Nat.one_pos)
      exact absurd (mem_committed_iff.mpr ⟨e, he, hcommits⟩) hi

/-- A draft is given a number by two calls, and one cancels it. -/
def rivals : Fin 3 → Job
  | 0 => contestedJob (.assignNumber contestedDraft.id firstStream.series)
  | 1 => contestedJob (.assignNumber contestedDraft.id firstStream.series)
  | 2 => contestedJob (.changeStatus contestedDraft.id .cancelled none)

/-- The first call loads the draft and comes to its write after the others, which follow one
another. -/
def overtaken : Course (Fin 3) fun i => (rivals i).Answer :=
  (start contested fun i => (rivals i).program (Config.service {})).replay
    (turnsOf 3 [0, 1, 1, 1, 2, 2, 0, 0])

/-- The draft is given a number and then cancelled. The call that was overtaken is told so and takes
no number. -/
theorem no_lost_updates_rivals :
    NoLostUpdates (Config.service {}) rivals contested overtaken ∧
      overtaken.committed = [1, 2] ∧
      overtaken.rest 0 = .done (.error (.error (.concurrentModification contestedDraft.id))) ∧
      overtaken.store.documents.map (fun r => (r.status, r.number, r.version))
        = [("CANCELLED", some "2025/00001", 3)] ∧
      overtaken.store.counters.map (fun r => (r.year, r.value))
        = [(none, 7), (some 2025, 1)] := by
  have htargets : ∀ i, ∃ id, (rivals i).request.target? = some id
    | 0 => ⟨_, rfl⟩
    | 1 => ⟨_, rfl⟩
    | 2 => ⟨_, rfl⟩
  have hclock : ∀ i, (rivals i).call.now.Readable := by decide +kernel
  have hconfig : Config.validate {} = .ok () := rfl
  have h : NoLostUpdates _ _ _ overtaken :=
    no_lost_updates hconfig lawful_contested htargets hclock (reaches_replay _ _)
  have hcommitted : overtaken.committed = [1, 2] := by decide +kernel
  have hserved : ∀ e ∈ overtaken.own 0, e.Served := fun _ he =>
    served_replay (fun _ hp => absurd hp List.not_mem_nil) _ _ (mem_own_iff.mp he)
  obtain ⟨f, hf⟩ : ∃ f, overtaken.failure? 0 = some f :=
    Option.isSome_iff_exists.mp (by decide +kernel)
  have hdone := failure?_eq_some_iff.mp hf
  refine ⟨h, hcommitted, hdone.trans (congrArg Program.done ?_), by decide +kernel,
    by decide +kernel⟩
  refine h.stale 0 contestedDraft.id _ rfl ?_ hdone ?_ hserved ?_ ?_
  · exact fun hmem => absurd (hcommitted ▸ hmem) (by decide)
  · decide +kernel
  · decide +kernel
  · decide +kernel

end Run

end Docket
