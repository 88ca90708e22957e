import Docket.Proofs.Commits
import Docket.Proofs.WellFormed

/-! # Counters that can always be read

On a store whose counters are well formed no request for a counter comes to a row that cannot be
read. A call on counters reports that the database has failed only if it really has.
-/

namespace Docket

open Store Issuing Simulation

namespace Store

variable {s t : Store} {step : Step} {tenant id : Id} {a : Allocation} {r : CounterRow}

theorem exists_of_addCounter_error {f : StoreFailure} (h : s.addCounter r = .error f) :
    ∃ key, f = .duplicate key := by
  unfold addCounter at h
  split_ifs at h
  · exact ⟨_, (Except.error.inj h).symm⟩
  · exact ⟨_, (Except.error.inj h).symm⟩

theorem answer_ne_error {row : Option CounterRow} (h : ∀ r ∈ row, r.WellFormed) (f : StoreFailure) :
    (match row with
      | none => Except.ok none
      | some r => lift (r.decode.map some)) ≠ .error f := by
  cases row with
  | none => exact nofun
  | some r =>
    obtain ⟨c, hc⟩ := (h r rfl).exists_decode
    simp [hc, Except.map, lift]

theorem Sound.exists_decodeAll (hs : s.Sound) {rows : List CounterRow}
    (h : ∀ r ∈ rows, r ∈ s.counters) : ∃ cs, CounterRow.decodeAll rows = .ok cs :=
  CounterRow.exists_decodeAll_iff.mpr fun r hr => (hs.counters r (h r hr)).exists_counter

theorem Sound.exists_rows (hs : s.Sound) (stream : Stream) :
    ∃ counters, CounterRow.decodeAll (s.streamRows stream) = .ok counters :=
  hs.exists_decodeAll fun _ hr => (mem_streamRows.mp hr).1

theorem Sound.find?_wellFormed (hs : s.Sound) {p : CounterRow → Bool} :
    ∀ r ∈ (s.liveCounters tenant).find? p, r.WellFormed := fun r hr =>
  hs.counters r (mem_liveCounters.mp (List.mem_of_find?_eq_some hr)).1

theorem Sound.advance_ne_backend (hs : s.Sound) (hkeyed : s.Keyed)
    (ha : (CounterRow.encode a.firstCounter).WellFormed) (causes : List String) :
    s.advance a ≠ .error (.backend causes) := by
  obtain ⟨counters, hrows⟩ := hs.exists_rows a.stream
  intro h
  cases hselect : select? counters a.year with
  | none =>
    rw [advance_of_none hrows hselect] at h
    obtain ⟨c, hc⟩ := ha.exists_decode
    cases hadd : s.addCounter (.encode a.firstCounter) with
    | error f =>
      obtain ⟨key, rfl⟩ := exists_of_addCounter_error hadd
      simp [hadd, bind, Except.bind] at h
    | ok t => simp [hadd, hc, lift, bind, Except.bind, pure, Except.pure] at h
  | some c =>
    have hmem := (mem_of_rows hrows (mem_of_select? hselect)).1
    obtain ⟨d, hd⟩ := ((hs.counters _ hmem).next ha).exists_decode
    rw [hkeyed.advance_of_some hrows hselect, hd] at h
    split_ifs at h
    · cases h
    · simp [lift, Except.map] at h
    · cases h

end Store

namespace Step

/-- Requests that come to no other table than that of counters. -/
def onCounters : Step → Bool
  | acquire _ => true
  | findCounter _ _ => true
  | findCounterByKey _ _ => true
  | listCounters _ => true
  | insertCounter _ => true
  | updateSettings _ => true
  | retireCounter _ _ _ => true
  | allocate _ => true
  | _ => false

end Step

namespace Store

variable {s : Store} {step : Step}

/-- A store of well-formed counters answers all requests for them, but for keys that are taken and
numbers that are too great. -/
theorem Sound.perform_ne_backend (hs : s.Sound) (hkeyed : s.Keyed) (hstep : step.Careful)
    (hcounters : step.onCounters = true)
    (hstored : ∀ c, step = .updateSettings c → ∃ r ∈ s.counters, r.id = c.id)
    (causes : List String) : (s.perform step).1 ≠ .error (.backend causes) := by
  cases step with
  | acquire | retireCounter =>
    intro h
    cases h
  | findCounter => exact answer_ne_error hs.find?_wellFormed _
  | findCounterByKey => exact answer_ne_error hs.find?_wellFormed _
  | listCounters tenant =>
    have hlisted : ∀ r ∈ (s.liveCounters tenant).mergeSort listedBefore, r ∈ s.counters :=
      fun r hr => (mem_liveCounters.mp (List.mem_mergeSort.mp hr)).1
    obtain ⟨cs, hcs⟩ := hs.exists_decodeAll hlisted
    simp only [perform, Store.listCounters, hcs, lift]
    intro h
    cases h
  | insertCounter c =>
    obtain ⟨d, hd⟩ := CounterRow.WellFormed.exists_decode hstep
    simp only [perform, insertCounter]
    cases hadd : s.addCounter (.encode c) with
    | error f =>
      obtain ⟨key, rfl⟩ := exists_of_addCounter_error hadd
      intro h
      cases h
    | ok t =>
      simp only [hd, lift]
      intro h
      cases h
  | updateSettings c =>
    obtain ⟨r, hr, hid⟩ := hstored c rfl
    have hfind := hkeyed.find?_counter hr
    obtain ⟨d, hd⟩ := ((hs.counters r hr).configured hstep.1 hstep.2).exists_decode
    rw [hid] at hfind
    simp only [perform, updateSettings, hfind, hd, lift]
    intro h
    cases h
  | allocate a =>
    intro h
    exact hs.advance_ne_backend hkeyed hstep causes (commit_error h).1
  | _ => cases hcounters

end Store

theorem Step.failure_eq_persistence {step : Step} {f : StoreFailure} {message : String}
    (h : step.failure f = .error (.persistence message)) : ∃ causes, f = .backend causes := by
  cases f with
  | backend causes => exact ⟨causes, rfl⟩
  | _ => cases step <;> cases h

theorem Request.Concludes.exists_backend {service : Service} {call : Call} {request : Request}
    {told : List Response} {a : Except Failure (Outcome request.Answer)}
    (h : request.Concludes service call told a) {message : String}
    (ha : a = .error (.error (.persistence message))) :
    ∃ r ∈ told, ∃ causes, r.reply = .error (.backend causes) := by
  cases h with
  | answered => cases ha
  | refused refuses => cases refuses <;> cases ha
  | declined declines => cases declines <;> cases ha
  | failed f =>
    obtain ⟨causes, rfl⟩ := Step.failure_eq_persistence (Except.error.inj ha)
    exact ⟨_, List.mem_append_right _ (List.mem_singleton_self _), causes, rfl⟩

namespace Request

/-- Operations on counters alone. -/
def onCounters : Request → Bool
  | generateNumber _ _ => true
  | createCounter _ => true
  | updateCounter _ _ => true
  | deleteCounter _ => true
  | getCounter _ => true
  | listCounters => true
  | _ => false

end Request

theorem Job.Demands.onCounters {service : Service} {job : Job} {seen : Store → Prop} {step : Step}
    (h : job.Demands service seen step) (hjob : job.request.onCounters = true) :
    step.onCounters = true := by
  obtain ⟨tenant, -, h⟩ := h
  generalize job.request = request at h hjob
  cases request with
  | generateNumber | createCounter | updateCounter | deleteCounter | getCounter | listCounters =>
    cases step <;> first | rfl | exact h.elim
  | _ => cases hjob

namespace Exchange

/-- The database fails to carry out a request. -/
def Breaks (e : Exchange) : Prop := ∃ causes, e.reply = .error (.backend causes)

end Exchange

namespace Course

variable {ι : Type} [DecidableEq ι]

theorem exists_replay_run {α : Type} {σ : Course Unit fun _ => α} {p : Program α}
    (hp : σ.rest () = p) :
    ∃ turns, (σ.replay turns).rest () = .done (p.run σ.store).1 := by
  induction p generalizing σ with
  | done a => exact ⟨[], hp⟩
  | request step next ih =>
    have hperform : σ.store.perform step = ((σ.store.perform step).1, _) := rfl
    have hserve := serve_eq hp hperform
    obtain ⟨turns, hturns⟩ := ih (σ.store.perform step).1 (σ := σ.serve ()) (by
      rw [hserve, reply_rest_self])
    refine ⟨() :: turns, ?_⟩
    rw [hserve] at hturns
    rw [replay, List.foldl_cons, hserve]
    exact hturns

end Course

section Run

open Course

variable {ι : Type} [DecidableEq ι] {service : Service} {jobs : ι → Job} {s : Store}
  {σ τ : Course ι fun i => (jobs i).Answer}

/-- Counters stay well formed, and the database fails in no request for them. -/
structure Upheld (service : Service) (jobs : ι → Job)
    (σ : Course ι fun i => (jobs i).Answer) : Prop extends Attentive service jobs σ where
  sound : σ.store.Sound
  seenSound : ∀ i s, σ.seen i s → s.Keyed ∧ s.Sound
  unserved : ∀ i e, (i, e) ∈ σ.trace → (jobs i).request.onCounters = true → e.Breaks → ¬ e.Served

theorem upheld_start (hkeyed : s.Keyed) (hs : s.Sound) :
    Upheld service jobs (.start s fun i => (jobs i).program service) :=
  { attentive_start hkeyed with
    sound := hs
    seenSound := fun _ _ ⟨_, he, _⟩ => absurd he List.not_mem_nil
    unserved := fun _ _ he => absurd he List.not_mem_nil }

/-- A call on counters ends with a failure of the database only if a request was refused for one. -/
theorem Upheld.exists_breaks (hσ : Upheld service jobs σ) {i : ι}
    (hjob : (jobs i).request.onCounters = true) {message : String}
    (hdone : σ.rest i = .done (.error (.error (.persistence message)))) :
    ∃ e, (i, e) ∈ σ.trace ∧ e.Breaks ∧ ¬ e.Served := by
  obtain ⟨r, hr, hbreaks⟩ := (hσ.concludes hdone).exists_backend rfl
  obtain ⟨e, he, rfl⟩ := exists_mem_of_told hr
  exact ⟨e, he, hbreaks, hσ.unserved i e he hjob hbreaks⟩

theorem Upheld.move (h : Move σ τ) (hσ : Upheld service jobs σ) (hservice : service.Valid)
    (hjobs : ∀ i, (jobs i).InRange) : Upheld service jobs τ := by
  have hattentive := hσ.toAttentive.move h
  obtain ⟨hrest, hreplies⟩ := h
  rename_i i step next reply t
  have hdemands := hσ.demanded hrest
  have hcareful := hdemands.careful hservice (hjobs i) (hσ.seenSound i)
  refine { hattentive with
    sound := ?sound, seenSound := ?seenSound, unserved := ?unserved }
  case sound => exact hreplies.sound hσ.keyed hσ.sound hcareful
  case seenSound =>
    rintro j s ⟨e, he, rfl⟩
    rcases List.mem_append.mp he with he | he
    · exact hσ.seenSound j _ ⟨e, he, rfl⟩
    · cases List.mem_singleton.mp he
      exact ⟨hσ.keyed, hσ.sound⟩
  case unserved =>
    intro j e he hcounters hbreaks hserved
    rcases List.mem_append.mp he with he | he
    · exact hσ.unserved j e he hcounters hbreaks hserved
    · cases List.mem_singleton.mp he
      obtain ⟨causes, hreply⟩ := hbreaks
      have hanswer := (Prod.ext_iff.mp hserved).1.trans hreply
      refine hσ.sound.perform_ne_backend hσ.keyed hcareful (hdemands.onCounters hcounters)
        (fun c hc => ?_) causes hanswer
      subst hc
      obtain ⟨tenant, -, h⟩ := hdemands
      generalize (jobs i).request = request at h
      cases request with
      | updateCounter id settings =>
        obtain ⟨-, s, b, hs, hb, rfl⟩ := h
        obtain ⟨rfl, q, hq, hid, -⟩ := hσ.exists_counter hs hb
        exact ⟨q, hq, hid⟩
      | _ => exact h.elim

theorem upheld_of_reaches (h : Reaches σ τ) (hσ : Upheld service jobs σ) (hservice : service.Valid)
    (hjobs : ∀ i, (jobs i).InRange) : Upheld service jobs τ := by
  induction h with
  | refl => exact hσ
  | tail _ hmove ih => exact ih.move hmove hservice hjobs

omit [DecidableEq ι] in
theorem Store.Sound.run_ne_persistence (hs : s.Sound) (hkeyed : s.Keyed) (hservice : service.Valid)
    {job : Job} (hjob : job.InRange) (hcounters : job.request.onCounters = true)
    (message : String) :
    ((job.program service).run s).1 ≠ .error (.error (.persistence message)) := by
  intro hrun
  let alone : Course Unit fun _ => job.Answer := .start s fun _ => job.program service
  obtain ⟨turns, hdone⟩ := exists_replay_run (σ := alone) rfl
  have hstart : Upheld service (fun _ : Unit => job) alone := upheld_start hkeyed hs
  have hupheld := upheld_of_reaches (reaches_replay alone turns) hstart hservice fun _ => hjob
  have hend : (alone.replay turns).rest () = .done (.error (.error (.persistence message))) :=
    hdone.trans (congrArg Program.done hrun)
  obtain ⟨e, he, -, hunserved⟩ := hupheld.exists_breaks (i := ()) hcounters hend
  exact hunserved (served_replay (σ := alone) (fun _ h => absurd h List.not_mem_nil) turns _ he)

/-- With a valid configuration and clocks in years after the year 0, calls leave only counters that
are well formed and can be read, so that no call on counters ends with a failure of the database
unless the database has failed of itself. -/
theorem counters_readable {config : Config} (hconfig : config.validate = .ok ())
    (hjobs : ∀ i, (jobs i).InRange)
    (h : Reaches (.start {} fun i => (jobs i).program config.service) σ) :
    (∀ r ∈ σ.store.counters, r.WellFormed ∧ ∃ c, r.decode = .ok c) ∧
      (∀ i message, (jobs i).request.onCounters = true →
        σ.rest i = .done (.error (.error (.persistence message))) →
          ∃ e, (i, e) ∈ σ.trace ∧ e.Breaks ∧ ¬ e.Served) ∧
      ∀ job : Job, job.InRange → job.request.onCounters = true → ∀ message,
        ((job.program config.service).run σ.store).1
          ≠ .error (.error (.persistence message)) := by
  have hservice := Service.valid_of_validate hconfig
  have hupheld := upheld_of_reaches h (upheld_start lawful_empty.toKeyed sound_empty) hservice hjobs
  refine ⟨fun r hr => ?_, fun i message hjob hdone => hupheld.exists_breaks hjob hdone, ?_⟩
  · exact ⟨hupheld.sound.counters r hr, (hupheld.sound.counters r hr).exists_decode⟩
  · intro job hjob hcounters message
    exact hupheld.sound.run_ne_persistence hupheld.keyed hservice hjob hcounters message

/-- The counters that calls of two years leave, the first of which has moved on. -/
theorem counters_readable_turned :
    (∀ r ∈ turned.store.counters, r.WellFormed) ∧
      turned.store.counters.map (fun r => (r.year, r.value))
        = [(some 2026, 1), (some 2025, 1)] := by
  have hjobs : ∀ i, (turning i).InRange
    | 0 => ⟨trivial, by decide, by decide⟩
    | 1 => ⟨trivial, by decide, by decide⟩
    | 2 => ⟨trivial, by decide, by decide⟩
  have hreaches : Reaches (.start {} fun i => (turning i).program (Config.service {})) turned :=
    reaches_replay _ _
  have hconfig : Config.validate {} = .ok () := rfl
  exact ⟨fun r hr => ((counters_readable hconfig hjobs hreaches).1 r hr).1, by decide +kernel⟩

end Run

end Docket
