import Mathlib.Logic.Function.Basic
import Docket.Proofs.Listing
import Docket.Proofs.WellFormed

/-! # Directories of counters

The live counters of a tenant are a map from their keys, since no two of them have one key. A write
of a counter changes the entry of its key, and the entry of the key that it had before, if that was
another one; retiring it takes its entry away. No other entry, and no other tenant, is concerned.
-/

namespace Docket

open Store Issuing Simulation

abbrev Directory : Type := CounterKey → Option Counter

namespace Store

/-- The live counter of a tenant that has a key, if there is one. -/
def directory (s : Store) (tenant : Id) : Directory := fun key =>
  ((s.liveCounters tenant).find? fun r => r.key = key).bind fun r => r.decode.toOption

/-- Stores whose counters can be read, and have no years but those after the year 0. -/
structure Legible (s : Store) : Prop extends Lawful s where
  legible : ∀ r ∈ s.counters, ∃ c : Counter, r = .encode c ∧ c.Storable ∧ ∀ y ∈ c.year, 0 < y

theorem legible_empty : Legible {} :=
  { lawful_empty with legible := fun _ h => absurd h List.not_mem_nil }

variable {s t : Store} {tenant : Id} {key old : CounterKey} {b c : Counter} {q r : CounterRow}

theorem Legible.exists_counter (hs : s.Legible) (hr : r ∈ s.liveCounters tenant) :
    ∃ c : Counter, r = .encode c ∧ c.Storable := by
  obtain ⟨c, hc, hstorable, -⟩ := hs.legible r (mem_liveCounters.mp hr).1
  exact ⟨c, hc, hstorable⟩

theorem Legible.storable (hs : s.Legible) (hc : .encode c ∈ s.liveCounters tenant) :
    c.Storable := by
  obtain ⟨d, hd, hstorable⟩ := hs.exists_counter hc
  rwa [encode_injective hd]

/-- The entries of a directory are the live counters of the tenant, each under its key. -/
theorem Legible.directory_eq_some_iff (hs : s.Legible) :
    s.directory tenant key = some c ↔ .encode c ∈ s.liveCounters tenant ∧ c.key = key := by
  have hfind : ∀ r, ((s.liveCounters tenant).find? fun r => r.key = key) = some r ↔
      r ∈ s.liveCounters tenant ∧ r.key = key := by
    intro r
    rw [find?_eq_some_iff_of_unique, decide_eq_true_eq]
    intro p hp q hq hpkey hqkey
    rw [decide_eq_true_eq] at hpkey hqkey
    exact hs.eq_of_key hp hq (hpkey.trans hqkey.symm)
  simp only [directory, Option.bind_eq_some_iff, hfind]
  constructor
  · rintro ⟨r, ⟨hr, hkey⟩, hdecode⟩
    cases hd : r.decode with
    | error f => simp [hd, Except.toOption] at hdecode
    | ok d =>
      obtain rfl : d = c := by simpa [hd, Except.toOption] using hdecode
      obtain ⟨rfl, -⟩ := CounterRow.decode_eq_ok_iff.mp hd
      exact ⟨hr, hkey⟩
  · rintro ⟨hc, hkey⟩
    refine ⟨.encode c, ⟨hc, hkey⟩, ?_⟩
    rw [CounterRow.decode_encode (hs.storable hc)]
    rfl

theorem Legible.directory_eq_none_iff (hs : s.Legible) :
    s.directory tenant key = none ↔ ∀ r ∈ s.liveCounters tenant, r.key ≠ key := by
  rw [Option.eq_none_iff_forall_ne_some]
  constructor
  · intro h r hr hkey
    obtain ⟨c, rfl, -⟩ := hs.exists_counter hr
    exact h c (hs.directory_eq_some_iff.mpr ⟨hr, hkey⟩)
  · intro h c hc
    obtain ⟨hmem, hkey⟩ := hs.directory_eq_some_iff.mp hc
    exact h _ hmem hkey

/-- The row of a counter has been written, over the one of its identifier if there was one. -/
structure Written (s : Store) (c : Counter) (t : Store) : Prop where
  live : c.isLive
  rows : ∀ q, q ∈ t.counters ↔ q = .encode c ∨ q ∈ s.counters ∧ q.id ≠ c.id

theorem Written.mem_liveCounters_iff (h : s.Written c t) :
    q ∈ t.liveCounters tenant ↔
      q = .encode c ∧ c.tenant = tenant ∨ q ∈ s.liveCounters tenant ∧ q.id ≠ c.id := by
  rw [mem_liveCounters, mem_liveCounters, h.rows]
  constructor
  · rintro ⟨rfl | ⟨hq, hid⟩, htenant, hlive⟩
    · exact Or.inl ⟨rfl, htenant⟩
    · exact Or.inr ⟨⟨hq, htenant, hlive⟩, hid⟩
  · rintro (⟨rfl, htenant⟩ | ⟨⟨hq, htenant, hlive⟩, hid⟩)
    · exact ⟨Or.inl rfl, htenant, h.live⟩
    · exact ⟨Or.inr ⟨hq, hid⟩, htenant, hlive⟩

section Written

variable (hs : s.Legible) (ht : t.Legible) (h : s.Written c t)

include ht h

theorem Legible.directory_written_self : t.directory c.tenant c.key = some c :=
  ht.directory_eq_some_iff.mpr ⟨h.mem_liveCounters_iff.mpr (Or.inl ⟨rfl, rfl⟩), rfl⟩

variable (hold : ∀ q ∈ s.counters, q.id = c.id → q.tenant = c.tenant ∧ q.key = old)

include hs hold

theorem Legible.directory_written_of_ne
    (hother : tenant ≠ c.tenant ∨ key ≠ c.key ∧ key ≠ old) :
    t.directory tenant key = s.directory tenant key := by
  refine Option.ext fun d => ?_
  rw [ht.directory_eq_some_iff, hs.directory_eq_some_iff, h.mem_liveCounters_iff, encode_id]
  refine and_congr_left fun hkey => ?_
  constructor
  · rintro (⟨hdc, htenant⟩ | ⟨hd, -⟩)
    · obtain rfl := encode_injective hdc
      rcases hother with hne | ⟨hne, -⟩
      · exact absurd htenant.symm hne
      · exact absurd hkey.symm hne
    · exact hd
  · intro hd
    refine Or.inr ⟨hd, fun hid => ?_⟩
    obtain ⟨hmem, htenant, -⟩ := mem_liveCounters.mp hd
    obtain ⟨hsame, hwas⟩ := hold _ hmem hid
    rcases hother with hne | ⟨-, hne⟩
    · exact hne (htenant.symm.trans hsame)
    · exact hne (hkey.symm.trans hwas)

theorem Legible.directory_written_left (hne : old ≠ c.key)
    (hmoved : ∃ q ∈ s.liveCounters c.tenant, q.id = c.id) : t.directory c.tenant old = none := by
  obtain ⟨q, hq, hqid⟩ := hmoved
  obtain ⟨-, rfl⟩ := hold q (mem_liveCounters.mp hq).1 hqid
  refine ht.directory_eq_none_iff.mpr fun r hr hkey => ?_
  rcases h.mem_liveCounters_iff.mp hr with ⟨rfl, -⟩ | ⟨hr, hid⟩
  · exact hne hkey.symm
  · rw [hs.eq_of_key hr hq hkey] at hid
    exact hid hqid

/-- A counter that is written leaves its old key for its new one. -/
theorem Legible.directory_of_written
    (hmoved : old = c.key ∨ ∃ q ∈ s.liveCounters c.tenant, q.id = c.id) :
    t.directory = Function.update s.directory c.tenant
      (Function.update (Function.update (s.directory c.tenant) old none) c.key (some c)) := by
  funext tenant key
  by_cases htenant : tenant = c.tenant
  · subst htenant
    rw [Function.update_self]
    by_cases hnew : key = c.key
    · rw [hnew, Function.update_self, ht.directory_written_self h]
    · rw [Function.update_of_ne hnew]
      by_cases hleft : key = old
      · subst hleft
        rw [Function.update_self]
        exact hs.directory_written_left ht h hold hnew (hmoved.resolve_left hnew)
      · rw [Function.update_of_ne hleft]
        exact hs.directory_written_of_ne ht h hold (Or.inr ⟨hnew, hleft⟩)
  · rw [Function.update_of_ne htenant]
    exact hs.directory_written_of_ne ht h hold (Or.inl htenant)

end Written

theorem written_of_addCounter (h : s.addCounter (.encode c) = .ok t) (hlive : c.isLive) :
    s.Written c t := by
  obtain ⟨-, hid, rfl⟩ := addCounter_eq_ok_iff.mp h
  refine ⟨hlive, fun q => ?_⟩
  rw [List.mem_append, List.mem_singleton, or_comm]
  exact or_congr_right ⟨fun hq => ⟨hq, hid q hq⟩, And.left⟩

theorem Keyed.written_of_configured (hs : s.Keyed) (hb : .encode b ∈ s.counters) (hlive : b.isLive)
    (settings : CounterSettings) (updated : Stamp) :
    s.Written { b with settings := settings, updated := updated }
      (s.changeCounter b.id fun r =>
        r.configured { b with settings := settings, updated := updated }) := by
  refine ⟨hlive, fun q => ?_⟩
  rw [mem_changeCounter]
  refine or_congr_left ⟨?_, fun hq => ⟨.encode b, hb, rfl, hq.symm⟩⟩
  rintro ⟨r, hr, hid, rfl⟩
  rw [hs.counter_eq hr hb hid]
  rfl

theorem Legible.directory_of_retired (hs : s.Legible) (ht : t.Legible)
    (hc : .encode c ∈ s.liveCounters tenant)
    (h : ∀ owner q, q ∈ t.liveCounters owner ↔ q ∈ s.liveCounters owner ∧ q.id ≠ c.id) :
    t.directory = Function.update s.directory tenant
      (Function.update (s.directory tenant) c.key none) := by
  have hcounter : ∀ owner d, .encode d ∈ s.liveCounters owner → d.id = c.id → d = c := by
    intro owner d hd hid
    exact encode_injective (hs.counter_eq (mem_liveCounters.mp hd).1 (mem_liveCounters.mp hc).1 hid)
  funext owner key
  refine Option.ext fun d => ?_
  rw [ht.directory_eq_some_iff, h, encode_id]
  by_cases howner : owner = tenant
  · subst howner
    rw [Function.update_self]
    by_cases hkey : key = c.key
    · subst hkey
      rw [Function.update_self]
      refine iff_of_false ?_ nofun
      rintro ⟨⟨hd, hid⟩, hdkey⟩
      exact hid (congrArg CounterRow.id (hs.eq_of_key hd hc hdkey))
    · rw [Function.update_of_ne hkey, hs.directory_eq_some_iff]
      refine and_congr_left fun hdkey => and_iff_left_of_imp fun hd hid => hkey ?_
      rw [← hdkey, hcounter owner d hd hid]
  · rw [Function.update_of_ne howner, hs.directory_eq_some_iff]
    refine and_congr_left fun _ => and_iff_left_of_imp fun hd hid => howner ?_
    obtain rfl := hcounter owner d hd hid
    exact (mem_liveCounters.mp hd).2.1.symm.trans (mem_liveCounters.mp hc).2.1

end Store

namespace Step

/-- Requests that write only counters that can be read, and no years but those after the year 0. -/
def Dated : Step → Prop
  | insertCounter c => c.Storable ∧ ∀ y ∈ c.year, 0 < y
  | updateSettings c => 1 ≤ c.settings.padding ∧ c.settings.padding ≤ 10
  | allocate a => 0 < a.year
  | assignNumber _ _ a => 0 < a.year
  | _ => True

theorem Dated.year_pos {step : Step} (h : step.Dated) {a : Allocation}
    (ha : Scene.allocation? step = some a) : 0 < a.year := by
  cases step with
  | allocate | assignNumber =>
    obtain rfl := Option.some.inj ha
    exact h
  | _ => cases ha

end Step

namespace Store

variable {s t : Store} {a : Allocation} {c : Counter} {step : Step} {reply : step.Reply}

theorem Legible.year_pos (hs : s.Legible) (hc : .encode c ∈ s.counters) : ∀ y ∈ c.year, 0 < y := by
  obtain ⟨d, hd, -, hyear⟩ := hs.legible _ hc
  rwa [encode_injective hd]

theorem Advances.year_pos (h : s.Advances a c t) (hs : s.Legible) (ha : 0 < a.year) :
    ∀ y ∈ c.year, 0 < y := by
  cases h with
  | first => exact fun y hy => Option.some.inj hy ▸ ha
  | @next counters d rows selected =>
    by_cases hrolls : a.Rolls d
    · rw [Allocation.next_of_rolls hrolls]
      exact fun y hy => Option.some.inj hy ▸ ha
    · rw [Allocation.next_of_not_rolls hrolls]
      have hd := (mem_of_rows rows (mem_of_select? selected)).1
      exact hs.year_pos (c := d) hd

theorem Replies.legible (h : s.Replies step reply t) (hs : s.Legible) (hstep : step.Dated) :
    t.Legible := by
  refine ⟨h.lawful hs.toLawful, fun q hq => ?_⟩
  cases ha : Scene.allocation? step with
  | some a =>
    have heffect := h.effect hs.toKeyed ha
    generalize step.issue? reply = issue at heffect
    cases heffect with
    | none => exact hs.legible q hq
    | some advances counters =>
      rcases advances.mem_counters.mp (counters ▸ hq) with rfl | ⟨hq, -⟩
      · exact ⟨_, rfl, advances.storable, advances.year_pos hs (hstep.year_pos ha)⟩
      · exact hs.legible q hq
  | none =>
    cases h.origin hs.toKeyed hq with
    | kept stored => exact hs.legible q stored
    | inserted request row =>
      subst request row
      exact ⟨_, rfl, hstep⟩
    | @configured c r request stored row =>
      subst request row
      obtain ⟨b, rfl, hstorable, hyear⟩ := hs.legible r stored
      exact ⟨{ b with settings := c.settings, updated := c.updated }, rfl,
        ⟨hstep, hstorable.year⟩, hyear⟩
    | @retired tenant id stamp r request stored row =>
      subst request row
      obtain ⟨b, rfl, hstorable, hyear⟩ := hs.legible r stored
      exact ⟨{ b with updated := stamp, retired := some stamp.time }, rfl,
        ⟨hstorable.padding, hstorable.year⟩, hyear⟩
    | first request | next request => cases ha.symm.trans request

end Store

namespace Job

variable {service : Service} {job : Job} {seen : Store → Prop} {step : Step}

/-- Years of a job are after the year 0, and have 32 bits where it names them itself. -/
structure InPositiveYears (job : Job) : Prop where
  request : job.request.YearFits
  clock : 0 < job.call.now.year

theorem Demands.dated (h : job.Demands service seen step) (hjob : job.InPositiveYears) :
    step.Dated := by
  obtain ⟨call, request⟩ := job
  obtain ⟨tenant, -, h⟩ := h
  obtain ⟨hyear, hcall⟩ := hjob
  cases step with
  | insertCounter c =>
    cases request with
    | createCounter new =>
      obtain ⟨hnew, rfl⟩ := h
      have hpadding := padding_of_checkSettings (settings_of_checkNewCounter hnew)
      exact ⟨⟨hpadding, hyear⟩, year_of_checkNewCounter hnew⟩
    | _ => exact h.elim
  | updateSettings c =>
    cases request with
    | updateCounter id settings =>
      obtain ⟨hsettings, s, b, -, -, rfl⟩ := h
      exact padding_of_checkSettings hsettings
    | _ => exact h.elim
  | allocate a =>
    cases request with
    | generateNumber documentType series =>
      obtain ⟨-, rfl⟩ := h
      exact hcall
    | _ => exact h.elim
  | assignNumber d expected a =>
    cases request with
    | assignNumber document series =>
      obtain ⟨s, b, documentType, -, -, -, -, -, -, rfl⟩ := h
      exact hcall
    | _ => exact h.elim
  | _ => exact trivial

end Job

section Run

open Course

variable {ι : Type} [DecidableEq ι] {service : Service} {jobs : ι → Job}
  {σ τ : Course ι fun i => (jobs i).Answer}

/-- Calls of clocks in years after the year 0 leave only counters that can be read. -/
theorem legible_of_reaches (hjobs : ∀ i, (jobs i).InPositiveYears)
    (h : Reaches (.start {} fun i => (jobs i).program service) σ) : σ.store.Legible := by
  induction h with
  | refl => exact legible_empty
  | tail hreached hmove ih =>
    have hattentive := attentive_of_reaches lawful_empty.toKeyed hreached
    obtain ⟨hrest, hreplies⟩ := hmove
    rename_i i step next reply t
    exact hreplies.legible ih ((hattentive.demanded hrest).dated (hjobs i))

end Run

end Docket
