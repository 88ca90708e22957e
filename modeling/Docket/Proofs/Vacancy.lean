import Docket.Proofs.Failure
import Docket.Proofs.Numbers
import Docket.Proofs.Turns
import Docket.Proofs.Serial

/-! # Keys that allocations take

The live rows of a stream differ in their years, where no year is the same as the year 0. In a year
after that the row that an allocation writes differs from all others, and so an allocation that has
its stream for itself is not told that a key is taken.
-/

namespace Docket

open Store Issuing Simulation

namespace Issuing

/-- Years that differ in live keys, where no year is the year 0. -/
def Apart (years : List (Option Int)) : Prop := (years.map fun y => y.getD 0).Nodup

def CounterWrite.applied : CounterWrite → List Counter → List Counter
  | insert c, counters => counters ++ [c]
  | update c, counters => counters.map fun d => if d.id = c.id then c else d

variable {a : Allocation} {counters : List Counter} {c d : Counter} {write : CounterWrite}
  {years : List (Option Int)} {y : Option Int}

theorem Apart.perm {zs : List (Option Int)} (h : Apart years) (hperm : zs.Perm years) : Apart zs :=
  (hperm.map _).nodup_iff.mpr h

theorem Apart.append (h : Apart years) (hnew : ∀ z ∈ years, z.getD 0 ≠ y.getD 0) :
    Apart (years ++ [y]) := by
  rw [Apart, List.map_append, List.map_singleton, ← List.concat_eq_append]
  refine h.concat fun hmem => ?_
  obtain ⟨z, hz, heq⟩ := List.mem_map.mp hmem
  exact hnew z hz heq

theorem Apart.eq (h : Apart (counters.map Counter.year)) (hc : c ∈ counters) (hd : d ∈ counters)
    (heq : c.year.getD 0 = d.year.getD 0) : c = d := by
  rw [Apart, List.map_map] at h
  exact List.inj_on_of_nodup_map h hc hd heq

theorem Apart.replaced (h : Apart (counters.map Counter.year))
    (hids : (counters.map Counter.id).Nodup)
    (hnew : ∀ d ∈ counters, d.id ≠ c.id → d.year.getD 0 ≠ c.year.getD 0) :
    Apart (((CounterWrite.update c).applied counters).map Counter.year) := by
  rw [Apart, CounterWrite.applied, List.map_map, List.map_map]
  refine (List.Nodup.of_map _ hids).map_on fun d hd e he heq => ?_
  simp only [Function.comp_apply] at heq
  split at heq <;> split at heq
  · next hdc hec => exact List.inj_on_of_nodup_map hids hd he (hdc.trans hec.symm)
  · next hec => exact absurd heq.symm (hnew e he hec)
  · next hdc _ => exact absurd heq (hnew d hd hdc)
  · exact h.eq hd he heq

theorem getD_ne_of_year_ne (hyear : 0 < a.year) (h : c.year ≠ some a.year) :
    c.year.getD 0 ≠ a.year := by
  cases hc : c.year with
  | none => exact Int.ne_of_lt hyear
  | some y => exact fun heq => h (hc.trans (congrArg some heq))

theorem year_ne_of_select?_eq_none (h : select? counters a.year = none) (hd : d ∈ counters) :
    d.year ≠ some a.year := by
  intro hy
  have hreached := select?_eq_none_iff.mp h d hd
  rw [isReached_of_year hy] at hreached
  cases hreached

theorem plan_eq_ok_iff : a.plan counters = .ok write ↔
    select? counters a.year = none ∧ write = .insert a.firstCounter ∨
      ∃ c, select? counters a.year = some c ∧ (a.next c).value < int64Bound ∧
        write = .update (a.next c) := by
  cases hselect : select? counters a.year with
  | none => simp [Allocation.plan_of_none hselect, eq_comm]
  | some c =>
    rw [Allocation.plan_of_some hselect]
    split
    · next hfits => simp [hfits, eq_comm]
    · next hfull => simp [hfull]

/-- No other counter has the key of the one that an allocation writes. -/
theorem getD_ne_next (hyear : 0 < a.year) (h : Apart (counters.map Counter.year))
    (hselect : select? counters a.year = some c) (hd : d ∈ counters) (hid : d.id ≠ c.id) :
    d.year.getD 0 ≠ (a.next c).year.getD 0 := by
  by_cases hrolls : a.Rolls c
  · rw [Allocation.next_of_rolls hrolls]
    refine getD_ne_of_year_ne hyear ?_
    exact ((year_of_select? hselect).resolve_left hrolls.2).1 d hd
  · rw [Allocation.next_of_not_rolls hrolls]
    exact fun heq => hid (congrArg Counter.id (h.eq hd (mem_of_select? hselect) heq))

/-- A write that an allocation plans leaves the keys of the stream apart. -/
theorem Apart.of_plan (h : Apart (counters.map Counter.year)) (hyear : 0 < a.year)
    (hids : (counters.map Counter.id).Nodup) (hplan : a.plan counters = .ok write) :
    Apart ((write.applied counters).map Counter.year) := by
  rcases plan_eq_ok_iff.mp hplan with ⟨hselect, rfl⟩ | ⟨c, hselect, -, rfl⟩
  · rw [CounterWrite.applied, List.map_append, List.map_singleton]
    refine h.append fun z hz => ?_
    obtain ⟨d, hd, rfl⟩ := List.mem_map.mp hz
    exact getD_ne_of_year_ne hyear (year_ne_of_select?_eq_none hselect hd)
  · refine h.replaced hids fun d hd hid => ?_
    rw [Allocation.next_id] at hid
    exact getD_ne_next hyear h hselect hd hid

theorem next_of_stream (hstream : c.stream = a.stream) (hlive : c.isLive) :
    (a.next c).stream = a.stream ∧ (a.next c).isLive :=
  ⟨(Allocation.next_stream a c).trans hstream,
    (congrArg Option.isNone (Allocation.next_retired a c)).trans hlive⟩

theorem mem_stream_of_applied (hcounters : ∀ c ∈ counters, c.stream = a.stream ∧ c.isLive)
    (hplan : a.plan counters = .ok write) (hd : d ∈ write.applied counters) :
    d.stream = a.stream ∧ d.isLive := by
  rcases plan_eq_ok_iff.mp hplan with ⟨-, rfl⟩ | ⟨c, hselect, -, rfl⟩
  · rcases List.mem_append.mp hd with hd | hd
    · exact hcounters d hd
    · rw [List.mem_singleton.mp hd]
      exact ⟨rfl, rfl⟩
  · obtain ⟨e, he, rfl⟩ := List.mem_map.mp hd
    split
    · obtain ⟨hstream, hlive⟩ := hcounters c (mem_of_select? hselect)
      exact next_of_stream hstream hlive
    · exact hcounters e he

end Issuing

namespace Store

variable {s t : Store} {a : Allocation} {c : Counter} {counters : List Counter} {key : String}

theorem Lawful.apart (hs : s.Lawful) (stream : Stream) :
    Apart ((s.streamRows stream).map CounterRow.year) := by
  rw [Apart, List.map_map]
  exact (hs.nodup_streamRows stream).map_on fun q hq r hr => hs.eq_of_getD_year hq hr

theorem apart_of_rows (hrows : CounterRow.decodeAll (s.streamRows a.stream) = .ok counters)
    (h : Apart ((s.streamRows a.stream).map CounterRow.year)) :
    Apart (counters.map Counter.year) := by
  rw [(CounterRow.decodeAll_eq_ok_iff.mp hrows).1, List.map_map] at h
  exact h

theorem nodup_ids_of_rows (hs : s.Keyed)
    (hrows : CounterRow.decodeAll (s.streamRows a.stream) = .ok counters) :
    (counters.map Counter.id).Nodup := by
  have hids : ((s.streamRows a.stream).map CounterRow.id).Nodup :=
    ((streamRows_perm s a.stream).map _).nodup_iff.mpr
      (hs.counterIds.sublist (List.filter_sublist.map _))
  rwa [(CounterRow.decodeAll_eq_ok_iff.mp hrows).1, List.map_map] at hids

theorem lift_ne_duplicate {α : Type} (x : Except DecodeFailure α) :
    lift x ≠ .error (.duplicate key) := by
  cases x <;> nofun

theorem isTaken_next_eq_false (hyear : 0 < a.year)
    (hrows : CounterRow.decodeAll (s.streamRows a.stream) = .ok counters)
    (hapart : Apart (counters.map Counter.year)) (hselect : select? counters a.year = some c) :
    s.isTaken (CounterRow.encode (a.next c)).liveKey c.id = false := by
  obtain ⟨-, hstream, -⟩ := mem_of_rows hrows (mem_of_select? hselect)
  refine isTaken_eq_false_iff.mpr fun q hq hl hkey => ?_
  obtain ⟨hqs, hqy⟩ := liveKey_eq_iff.mp hkey
  have hq := mem_streamRows.mpr ⟨hq, hqs.trans ((Allocation.next_stream a c).trans hstream), hl⟩
  rw [(CounterRow.decodeAll_eq_ok_iff.mp hrows).1] at hq
  obtain ⟨d, hd, rfl⟩ := List.mem_map.mp hq
  by_contra hid
  exact getD_ne_next hyear hapart hselect hd hid hqy

/-- An allocation in a year after the year 0 is never told that a key is taken, if that of its own
new counter is not. -/
theorem Keyed.advance_ne_duplicate (hs : s.Keyed) (hyear : 0 < a.year)
    (h : Apart ((s.streamRows a.stream).map CounterRow.year))
    (hfresh : ∀ r ∈ s.counters, r.id ≠ a.fresh) : s.advance a ≠ .error (.duplicate key) := by
  cases hrows : CounterRow.decodeAll (s.streamRows a.stream) with
  | error f => simp [advance, hrows, lift, DecodeFailure.toStoreFailure, bind, Except.bind]
  | ok counters =>
    cases hselect : select? counters a.year with
    | none =>
      have hadd := addCounter_eq_ok_iff (r := .encode a.firstCounter).mpr ⟨fun _ q hq hl =>
        keyFree_of_rows (Int.ne_of_gt hyear) hrows
          (fun d hd => year_ne_of_select?_eq_none hselect hd) hq hl, hfresh, rfl⟩
      rw [advance_of_none hrows hselect, hadd]
      cases (CounterRow.encode a.firstCounter).decode <;> (intro h; cases h)
    | some c =>
      rw [hs.advance_of_some hrows hselect,
        isTaken_next_eq_false hyear hrows (apart_of_rows hrows h) hselect]
      split
      · intro h
        cases h
      · cases (CounterRow.encode (a.next c)).decode <;> (intro h; cases h)

theorem streamRows_replace_perm {id : Id} {q : CounterRow} {stream : Stream}
    (hold : ∀ r ∈ s.counters, r.id = id → r.stream = stream ∧ r.isLive)
    (hnew : q.stream = stream ∧ q.isLive) :
    ((s.changeCounter id fun _ => q).streamRows stream).Perm
      ((s.streamRows stream).map fun r => if r.id = id then q else r) := by
  refine (streamRows_perm _ stream).trans ?_
  refine List.Perm.trans (.of_eq ?_) ((streamRows_perm s stream).symm.map _)
  rw [changeCounter, List.filter_map]
  refine congrArg _ (List.filter_congr fun r hr => ?_)
  rw [Function.comp_apply]
  split
  · next hid => rw [decide_eq_true hnew, decide_eq_true (hold r hr hid)]
  · rfl

theorem Advances.exists_plan (h : s.Advances a c t) (hs : s.Keyed) :
    ∃ counters write, CounterRow.decodeAll (s.streamRows a.stream) = .ok counters ∧
      a.plan counters = .ok write ∧ write.counter = c ∧
      (t.streamRows a.stream).Perm ((write.applied counters).map .encode) := by
  cases h with
  | @first counters rows selected =>
    refine ⟨counters, _, rows, Allocation.plan_of_none selected, rfl, ?_⟩
    rw [CounterWrite.applied, List.map_append, List.map_singleton,
      ← (CounterRow.decodeAll_eq_ok_iff.mp rows).1]
    have hnew : decide ((CounterRow.encode a.firstCounter).stream = a.stream ∧
        (CounterRow.encode a.firstCounter).isLive) = true := decide_eq_true ⟨rfl, rfl⟩
    refine (streamRows_perm _ a.stream).trans ?_
    rw [List.filter_append, List.filter_singleton, hnew]
    exact (streamRows_perm s a.stream).symm.append_right _
  | @next counters c rows selected fits =>
    refine ⟨counters, _, rows, plan_eq_ok_iff.mpr (Or.inr ⟨c, selected, fits, rfl⟩), rfl, ?_⟩
    obtain ⟨hmem, hstream, hlive, -⟩ := mem_of_rows rows (mem_of_select? selected)
    refine (streamRows_replace_perm (fun r hr hid => ?_) ?_).trans (.of_eq ?_)
    · rw [hs.counter_eq hr hmem hid]
      exact ⟨hstream, hlive⟩
    · exact next_of_stream hstream hlive
    · rw [(CounterRow.decodeAll_eq_ok_iff.mp rows).1, CounterWrite.applied, List.map_map,
        List.map_map]
      refine List.map_congr_left fun d _ => ?_
      rw [Function.comp_apply, Function.comp_apply, Allocation.next_id, encode_id]
      split <;> rfl

theorem findDocument_ne_duplicate {tenant id : Id} :
    s.findDocument tenant id ≠ .error (.duplicate key) := by
  unfold findDocument
  split
  · nofun
  · exact lift_ne_duplicate _

theorem changeDocument_ne_duplicate {d : Document} {expected : Int}
    {f : DocumentRow → DocumentRow} :
    s.changeDocument d expected f ≠ .error (.duplicate key) := by
  unfold changeDocument
  simp only
  split <;> nofun

theorem assignNumber_ne_duplicate {d : Document} {expected : Int}
    (h : s.advance a ≠ .error (.duplicate key)) :
    s.assignNumber d expected a ≠ .error (.duplicate key) := by
  unfold assignNumber
  cases hadvance : s.advance a with
  | error f =>
    rw [hadvance] at h
    exact fun hf => h (congrArg Except.error (Except.error.inj hf))
  | ok reply =>
    obtain ⟨c, u⟩ := reply
    simp only [bind, Except.bind]
    cases hchange : u.changeDocument d expected fun r => r.numbered d c.number.formatted with
    | error f =>
      intro hf
      obtain rfl : f = .duplicate key := Except.error.inj hf
      exact changeDocument_ne_duplicate hchange
    | ok v => nofun

theorem Lawful.perform_ne_duplicate (hs : s.Lawful) {service : Service} {call : Call}
    {request : Request} {step : Step} (hasks : request.Asks service call step)
    (hrequest : request.asksNumber = true) (hyear : 0 < call.now.year)
    (hfresh : ∀ r ∈ s.counters, r.id ≠ call.fresh) :
    (s.perform step).1 ≠ .error (.duplicate key) := by
  have hadvance : ∀ stream, s.advance (service.allocation call stream) ≠ .error (.duplicate key) :=
    fun stream => hs.advance_ne_duplicate hyear (hs.apart stream) hfresh
  cases request with
  | generateNumber documentType series =>
    cases step with
    | acquire => nofun
    | allocate a =>
      obtain ⟨stream, rfl⟩ := hasks
      exact fun h => hadvance stream (commit_error h).1
    | _ => exact hasks.elim
  | assignNumber id series =>
    cases step with
    | acquire => nofun
    | findDocument tenant id => exact findDocument_ne_duplicate
    | assignNumber d expected a =>
      obtain ⟨-, stream, rfl⟩ := hasks
      exact fun h => assignNumber_ne_duplicate (hadvance stream) (commit_error h).1
    | _ => exact hasks.elim
  | _ => cases hrequest

end Store

/-- Conflicts that a call for a number may report: a document may not be given one. -/
def Request.Bars : Request → String → Prop
  | assignNumber _ _, reason =>
    ∃ d clash, Service.checkUnnumbered d = .error clash ∧ reason = clash.reason
  | _, _ => False

theorem Request.Concludes.conflict {service : Service} {call : Call} {request : Request}
    {told : List Response} {a : Except Failure (Outcome request.Answer)}
    (h : request.Concludes service call told a) (hrequest : request.asksNumber = true)
    (htold : ∀ r ∈ told, ∀ key, r.reply ≠ .error (.duplicate key)) {reason : String}
    (ha : a = .error (.error (.conflict reason))) : request.Bars reason := by
  cases h with
  | answered => cases ha
  | refused refuses => cases refuses <;> cases ha
  | @failed tenant told step f prompted =>
    have huntold : ∀ key, f ≠ .duplicate key := fun key hf =>
      htold ⟨step, .error f⟩ (List.mem_append_right _ (List.mem_singleton_self _)) key
        (congrArg Except.error hf)
    have hfailure : step.failure f = f.toFailure := by
      cases prompted with
      | insert => cases hrequest
      | opening => cases request <;> rfl
      | _ => rfl
    rw [hfailure] at ha
    cases f with
    | duplicate key => exact absurd rfl (huntold key)
    | _ => cases ha
  | declined declines =>
    cases declines with
    | barred unnumbered =>
      cases ha
      exact ⟨_, _, unnumbered, rfl⟩
    | keyTaken => cases hrequest
    | _ => cases ha

section Run

open Course

variable {ι : Type} [DecidableEq ι] {service : Service} {jobs : ι → Job} {s : Store}
  {σ τ : Course ι fun i => (jobs i).Answer} {i : ι}

/-- A call for a number that has never been told that a key is taken. -/
structure Unopposed (service : Service) (jobs : ι → Job) (i : ι)
    (σ : Course ι fun i => (jobs i).Answer) : Prop extends Conducted service jobs σ where
  lawful : σ.store.Lawful
  untold : ∀ e ∈ σ.own i, ∀ key, e.reply ≠ .error (.duplicate key)

theorem Unopposed.move (h : Course.Move σ τ) (hσ : Unopposed service jobs i σ)
    (hrequest : (jobs i).request.asksNumber = true) (hyear : 0 < (jobs i).call.now.year)
    (hfresh : ∀ e ∈ τ.own i, ∀ r ∈ e.before.counters, r.id ≠ (jobs i).call.fresh)
    (hserved : ∀ e ∈ τ.own i, ∀ key, e.reply = .error (.duplicate key) → e.Served) :
    Unopposed service jobs i τ := by
  have hconducted := hσ.toConducted.move h
  obtain ⟨hrest, hreplies⟩ := h
  rename_i j step next reply t
  refine ⟨hconducted, hreplies.lawful hσ.lawful, ?_⟩
  by_cases hj : i = j
  · subst hj
    rw [own_reply_self] at hfresh hserved
    obtain ⟨tenant, -, prompted⟩ := hσ.prompts hrest
    refine all_own_reply hσ.untold fun key hreply => ?_
    have hlast := List.mem_append_right (σ.own i)
      (List.mem_singleton_self (⟨σ.store, step, reply, t⟩ : Exchange))
    have hperform := congrArg Prod.fst (hserved _ hlast key hreply)
    exact hσ.lawful.perform_ne_duplicate prompted.asks hrequest hyear (hfresh _ hlast)
      (hperform.trans hreply)
  · rw [own_reply_of_ne hj]
    exact hσ.untold

theorem Course.Move.mem_own (h : Course.Move σ τ) {e : Exchange} (he : e ∈ σ.own i) :
    e ∈ τ.own i := by
  obtain ⟨-, -⟩ := h
  exact mem_own_iff.mpr (List.mem_append_left _ (mem_own_iff.mp he))

theorem unopposed_of_reaches (hs : s.Lawful)
    (h : Reaches (.start s fun i => (jobs i).program service) σ)
    (hrequest : (jobs i).request.asksNumber = true) (hyear : 0 < (jobs i).call.now.year)
    (hfresh : ∀ e ∈ σ.own i, ∀ r ∈ e.before.counters, r.id ≠ (jobs i).call.fresh)
    (hserved : ∀ e ∈ σ.own i, ∀ key, e.reply = .error (.duplicate key) → e.Served) :
    Unopposed service jobs i σ := by
  induction h with
  | refl =>
    exact ⟨conducted_start s, hs, fun _ he => absurd he List.not_mem_nil⟩
  | tail _ hmove ih =>
    have hσ := ih (fun e he => hfresh e (hmove.mem_own he)) fun e he =>
      hserved e (hmove.mem_own he)
    exact hσ.move hmove hrequest hyear hfresh hserved

/-- In a year after the year 0 allocations take keys that are free. The write that is planned from
the live rows of a stream leaves them apart; the store makes this write, and does not refuse it for
a key; and a call for a number reports no conflict over a key, whatever else is under way. -/
theorem allocations_unopposed {year : Int} (hyear : 0 < year) :
    (∀ (a : Allocation) (counters : List Counter) (write : CounterWrite), a.year = year →
      (∀ c ∈ counters, c.stream = a.stream ∧ c.isLive) → (counters.map Counter.id).Nodup →
      Apart (counters.map Counter.year) → a.plan counters = .ok write →
      (∀ c ∈ write.applied counters, c.stream = a.stream ∧ c.isLive) ∧
        Apart ((write.applied counters).map Counter.year)) ∧
    (∀ (s : Store) (a : Allocation), a.year = year → s.Keyed →
      Apart ((s.streamRows a.stream).map CounterRow.year) →
      (∀ r ∈ s.counters, r.id ≠ a.fresh) →
      (∀ key, s.advance a ≠ .error (.duplicate key)) ∧
        ∀ c t, s.advance a = .ok (c, t) →
          (∃ counters write, CounterRow.decodeAll (s.streamRows a.stream) = .ok counters ∧
            a.plan counters = .ok write ∧ write.counter = c ∧
            (t.streamRows a.stream).Perm ((write.applied counters).map .encode)) ∧
          Apart ((t.streamRows a.stream).map CounterRow.year)) ∧
    (∀ {ι : Type} [DecidableEq ι] (service : Service) (jobs : ι → Job) (s : Store)
      (σ : Course ι fun i => (jobs i).Answer) (i : ι), s.Lawful →
      Reaches (.start s fun i => (jobs i).program service) σ →
      (jobs i).call.now.year = year → (jobs i).request.asksNumber = true →
      (∀ e ∈ σ.own i, ∀ r ∈ e.before.counters, r.id ≠ (jobs i).call.fresh) →
      (∀ e ∈ σ.own i, ∀ key, e.reply = .error (.duplicate key) → e.Served) →
      (∀ e ∈ σ.own i, ∀ key, e.reply ≠ .error (.duplicate key)) ∧
        ∀ reason, σ.rest i = .done (.error (.error (.conflict reason))) →
          (jobs i).request.Bars reason) := by
  refine ⟨?planned, ?stored, ?called⟩
  case planned =>
    rintro a counters write rfl hcounters hids hapart hplan
    exact ⟨fun c hc => mem_stream_of_applied hcounters hplan hc,
      hapart.of_plan hyear hids hplan⟩
  case stored =>
    rintro s a rfl hs hapart hfresh
    refine ⟨fun key => hs.advance_ne_duplicate hyear hapart hfresh, fun c t hadvance => ?_⟩
    obtain ⟨counters, write, hrows, hplan, hwrite, hperm⟩ :=
      (hs.advance_eq_ok_iff.mp hadvance).exists_plan hs
    refine ⟨⟨counters, write, hrows, hplan, hwrite, hperm⟩, ?_⟩
    have happlied := (apart_of_rows hrows hapart).of_plan hyear (nodup_ids_of_rows hs hrows) hplan
    refine happlied.perm ((hperm.map CounterRow.year).trans (.of_eq ?_))
    rw [List.map_map]
    rfl
  case called =>
    rintro ι _ service jobs s σ i hs h rfl hrequest hfresh hserved
    have hσ := unopposed_of_reaches hs h hrequest hyear hfresh hserved
    refine ⟨hσ.untold, fun reason hdone => ?_⟩
    refine (hσ.concludes hdone).conflict hrequest (fun r hr => ?_) rfl
    obtain ⟨e, he, rfl⟩ := exists_mem_of_told hr
    exact hσ.untold e (mem_own_iff.mpr he)

def contestant : Job :=
  contestedJob (.generateNumber firstStream.documentType firstStream.series)

def contestantRun : Course Unit fun _ => contestant.Answer :=
  (start contested fun _ => contestant.program {}).replay [(), ()]

def contestantAllocation : Allocation := Service.allocation {} contestant.call firstStream

theorem allocations_unopposed_contested :
    (∃ write, contestantAllocation.plan contestedCounters = .ok write ∧
      write.counter.year = some 2025 ∧
      Apart ((write.applied contestedCounters).map Counter.year)) ∧
    contested.advance contestantAllocation ≠ .error (.duplicate liveKeyTaken) ∧
    ∀ reason, contestantRun.rest () ≠ .done (.error (.error (.conflict reason))) := by
  obtain ⟨hplanned, hstored, hcalled⟩ := allocations_unopposed (by decide : (0 : Int) < 2025)
  have hapart : Apart (contestedCounters.map Counter.year) := by unfold Apart; decide
  refine ⟨⟨_, rfl, rfl, (hplanned contestantAllocation contestedCounters _ rfl (by decide)
    (by decide) hapart rfl).2⟩, ?_, fun reason hdone => ?_⟩
  · exact (hstored contested contestantAllocation rfl lawful_contested.toKeyed
      (lawful_contested.apart _) (by decide)).1 liveKeyTaken
  · have hserved : ∀ e ∈ contestantRun.own (), e.Served := fun _ he =>
      served_replay (fun _ hp => absurd hp List.not_mem_nil) _ _ (mem_own_iff.mp he)
    exact (hcalled {} (fun _ : Unit => contestant) contested contestantRun () lawful_contested
      (reaches_replay _ _) rfl rfl (by decide +kernel) fun e he _ _ => hserved e he).2 reason hdone

end Run

end Docket
