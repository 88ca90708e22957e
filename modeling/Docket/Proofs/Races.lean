import Docket.Proofs.Admission
import Docket.Proofs.Commits
import Docket.Proofs.Entries
import Docket.Proofs.Streams

/-! # Races for a key

A call that creates a counter looks its key up first and adds the counter after that. In between,
other calls may add a counter of the key, or an allocation of the current year may: with the first
counter of its stream, or with one that starts again. Whoever comes first has the key for good.
-/

namespace Docket

open Store Issuing Simulation

variable {α : Type}

/-- The stream of a tenant that the counters of a key are in. -/
def CounterKey.stream (key : CounterKey) (tenant : Id) : Stream :=
  ⟨tenant, key.documentType, key.series⟩

/-- The failure of a call that is too late to create a counter of a key. -/
def CounterKey.conflict (key : CounterKey) : Failure := .error (Clash.counterExists key).error

namespace Store

variable {s t : Store} {tenant id : Id} {key : CounterKey} {stream : Stream} {c : Counter}
  {a : Allocation} {year : Int}

def HasKey (s : Store) (tenant : Id) (key : CounterKey) : Prop :=
  ∃ r ∈ s.liveCounters tenant, r.key = key

instance : Decidable (s.HasKey tenant key) :=
  inferInstanceAs (Decidable (∃ r ∈ s.liveCounters tenant, _))

theorem hasKey_congr (h : s.counters = t.counters) :
    s.HasKey tenant key ↔ t.HasKey tenant key := by
  rw [HasKey, HasKey, liveCounters, liveCounters, h]

theorem hasCounter_congr (h : s.counters = t.counters) : s.hasCounter id = t.hasCounter id := by
  rw [hasCounter, hasCounter, h]

/-- A lawful store in which the live counters of a stream can be read. -/
structure Ready (s : Store) (stream : Stream) : Prop extends Lawful s where
  rows : ∃ counters, CounterRow.decodeAll (s.streamRows stream) = .ok counters

theorem Ready.exists_counter (hs : s.Ready stream) {r : CounterRow} (hr : r ∈ s.streamRows stream) :
    ∃ c : Counter, r = .encode c ∧ c.Storable :=
  CounterRow.exists_decodeAll_iff.mp hs.rows r hr

theorem mem_streamRows_of_key {r : CounterRow} (hr : r ∈ s.liveCounters tenant)
    (hkey : r.key = key) : r ∈ s.streamRows (key.stream tenant) := by
  obtain ⟨hmem, rfl, hlive⟩ := mem_liveCounters.mp hr
  exact mem_streamRows.mpr ⟨hmem, hkey ▸ rfl, hlive⟩

/-- A key of a year is one that the index tells apart, except for the year 0. -/
theorem hasKey_iff_liveKey (hyear : key.year = some year) (hne : year ≠ 0) :
    s.HasKey tenant key ↔
      ∃ r ∈ s.counters, r.isLive ∧ r.liveKey = (key.stream tenant, year) := by
  constructor
  · rintro ⟨r, hr, rfl⟩
    obtain ⟨hmem, rfl, hlive⟩ := mem_liveCounters.mp hr
    refine ⟨r, hmem, hlive, Prod.ext rfl ?_⟩
    rw [CounterRow.liveKey, show r.year = some year from hyear]
    rfl
  · rintro ⟨r, hr, hlive, hkey⟩
    obtain ⟨hstream, hrank⟩ := Prod.ext_iff.mp hkey
    obtain ⟨htenant, htype, hseries⟩ := Stream.mk.inj hstream
    have hr_year : r.year = some year := by
      cases h : r.year with
      | none => exact absurd (by rw [CounterRow.liveKey, h] at hrank; exact hrank.symm) hne
      | some y =>
        rw [CounterRow.liveKey, h] at hrank
        exact congrArg some hrank
    refine ⟨r, mem_liveCounters.mpr ⟨hr, htenant, hlive⟩, ?_⟩
    rw [CounterRow.key, htype, hseries, hr_year, ← hyear]

theorem Ready.findCounterByKey_of_hasKey (hs : s.Ready (key.stream tenant))
    (h : s.HasKey tenant key) : ∃ c, s.findCounterByKey tenant key = .ok (some c) := by
  obtain ⟨r, hr, hkey⟩ := h
  obtain ⟨c, rfl, hstorable⟩ := hs.exists_counter (mem_streamRows_of_key hr hkey)
  exact ⟨c, hs.findCounterByKey_eq_some_iff.mpr ⟨hr, hkey, hstorable⟩⟩

theorem findCounterByKey_of_not_hasKey (h : ¬ s.HasKey tenant key) :
    s.findCounterByKey tenant key = .ok none :=
  findCounterByKey_eq_none_iff.mpr fun r hr hkey => h ⟨r, hr, hkey⟩

theorem insertCounter_of_hasKey (htenant : c.tenant = tenant) (hkey : c.key = key)
    (hlive : c.isLive) (h : s.HasKey tenant key) :
    s.insertCounter c = (.error (.duplicate liveKeyTaken), s) := by
  obtain ⟨r, hr, hrkey⟩ := h
  obtain ⟨hr, hrt, hrl⟩ := mem_liveCounters.mp hr
  have htaken : s.counters.any (fun q => decide
      (q.isLive ∧ q.liveKey = (CounterRow.encode c).liveKey)) = true := by
    refine List.any_eq_true.mpr ⟨r, hr, decide_eq_true ⟨hrl, ?_⟩⟩
    exact liveKey_eq_of_key (hrt.trans htenant.symm) (hrkey.trans hkey.symm)
  have hadd : s.addCounter (.encode c) = .error (.duplicate liveKeyTaken) :=
    if_pos ⟨hlive, htaken⟩
  rw [insertCounter, hadd]

theorem Ready.add (hs : s.Ready stream) (h : s.addCounter (.encode c) = .ok t)
    (hc : c.Storable) : t.Ready stream := by
  refine ⟨hs.toLawful.add h, CounterRow.exists_decodeAll_iff.mpr fun r hr => ?_⟩
  obtain ⟨-, -, rfl⟩ := addCounter_eq_ok_iff.mp h
  obtain ⟨hr, hstream, hlive⟩ := mem_streamRows.mp hr
  rcases List.mem_append.mp hr with hr | hr
  · exact hs.exists_counter (mem_streamRows.mpr ⟨hr, hstream, hlive⟩)
  · exact ⟨c, List.mem_singleton.mp hr, hc⟩

theorem exists_insertCounter (hyear : key.year = some year) (hne : year ≠ 0)
    (htenant : c.tenant = tenant) (hkey : c.key = key) (hc : c.Storable)
    (hid : s.hasCounter c.id = false) (h : ¬ s.HasKey tenant key) :
    ∃ t, s.insertCounter c = (.ok c, t) ∧ s.addCounter (.encode c) = .ok t := by
  have hfree : ∀ q ∈ s.counters, q.isLive → q.liveKey ≠ (CounterRow.encode c).liveKey := by
    intro q hq hlive heq
    refine h ((hasKey_iff_liveKey hyear hne).mpr ⟨q, hq, hlive, heq.trans ?_⟩)
    have hcyear : c.year = some year := (congrArg CounterKey.year hkey).trans hyear
    rw [CounterRow.liveKey, encode_year, hcyear, ← htenant, ← hkey]
    rfl
  have hids : ∀ q ∈ s.counters, q.id ≠ (CounterRow.encode c).id := fun q hq hqid =>
    Bool.false_ne_true (hid.symm.trans (hasCounter_eq_true_iff.mpr ⟨q, hq, hqid⟩))
  have hadd := addCounter_eq_ok_iff.mpr ⟨fun _ => hfree, hids, rfl⟩
  exact ⟨_, insertCounter_eq_ok_iff.mpr ⟨rfl, hc, hadd⟩, hadd⟩

theorem hasKey_of_addCounter (htenant : c.tenant = tenant) (hkey : c.key = key) (hlive : c.isLive)
    (h : s.addCounter (.encode c) = .ok t) : t.HasKey tenant key := by
  obtain ⟨-, -, rfl⟩ := addCounter_eq_ok_iff.mp h
  have hmem : CounterRow.encode c ∈ s.counters ++ [.encode c] :=
    List.mem_append_right _ (List.mem_singleton_self _)
  exact ⟨.encode c, mem_liveCounters.mpr ⟨hmem, htenant, hlive⟩, hkey⟩

theorem hasCounter_addCounter_of_ne (h : s.addCounter (.encode c) = .ok t) (hne : id ≠ c.id) :
    t.hasCounter id = s.hasCounter id := by
  obtain ⟨-, -, rfl⟩ := addCounter_eq_ok_iff.mp h
  have hnew : decide ((CounterRow.encode c).id = id) = false := decide_eq_false fun h => hne h.symm
  simp only [hasCounter, List.any_append, List.any_cons, hnew, List.any_nil, Bool.or_false]

/-- An allocation of a year can be made, whatever else is stored. -/
theorem Ready.admits (hs : s.Ready a.stream) (hyear : 0 < a.year ∧ a.year < int32Bound)
    (hpadding : 1 ≤ a.defaults.padding ∧ a.defaults.padding ≤ 10)
    (hid : s.hasCounter a.fresh = false)
    (hvalues : ∀ r ∈ s.streamRows a.stream, r.value + 1 < int64Bound) : s.Admits a := by
  obtain ⟨counters, hrows⟩ := hs.rows
  have hplans : s.plans a := by
    refine plans_iff.mpr ⟨counters, hrows, ?_⟩
    cases hselect : select? counters a.year with
    | none => exact ⟨_, Allocation.plan_of_none hselect⟩
    | some c =>
      refine ⟨.update (a.next c), ?_⟩
      rw [Allocation.plan_of_some hselect, if_pos]
      obtain ⟨hc, hstream, hlive, -⟩ := mem_of_rows hrows (mem_of_select? hselect)
      have hvalue := hvalues _ (mem_streamRows.mpr ⟨hc, hstream, hlive⟩)
      by_cases hrolls : a.Rolls c
      · rw [Allocation.next_of_rolls hrolls]
        exact (by decide : (1 : Int) < int64Bound)
      · rw [Allocation.next_of_not_rolls hrolls]
        exact hvalue
  exact {
    plans := hplans
    padding := hpadding
    yearFits := ⟨Int.le_trans (by decide) (Int.le_of_lt hyear.1), hyear.2⟩
    fresh := fun q hq hqid =>
      Bool.false_ne_true (hid.symm.trans (hasCounter_eq_true_iff.mpr ⟨q, hq, hqid⟩)) }

theorem Advances.exists_rows_of_ready (h : s.Advances a c t) (hs : s.Ready stream) :
    ∃ counters, CounterRow.decodeAll (t.streamRows stream) = .ok counters := by
  by_cases hstream : stream = a.stream
  · rw [hstream]
    exact h.exists_rows
  · rw [h.streamRows_of_ne hs.toKeyed hstream]
    exact hs.rows

theorem Advances.hasKey (h : s.Advances a c t) (hs : s.Keyed) (hyear : key.year = some a.year)
    (hkey : s.HasKey tenant key) : t.HasKey tenant key := by
  obtain ⟨r, hr, rfl⟩ := hkey
  obtain ⟨hmem, rfl, hlive⟩ := mem_liveCounters.mp hr
  rcases h.moves hs hmem with ⟨hkept, -⟩ | ⟨-, -, hpersists, hmoves⟩
  · exact ⟨r, mem_liveCounters.mpr ⟨hkept, rfl, hlive⟩, rfl⟩
  · have hnext : (CounterRow.encode c).year = r.year := by
      cases hmoves with
      | counts same => exact same
      | begins resets earlier =>
        exact absurd (earlier a.year hyear) (Int.lt_irrefl _)
    obtain ⟨htenant, htype, hseries⟩ := Stream.mk.inj hpersists.stream
    have hmem : CounterRow.encode c ∈ t.counters := h.mem_counters.mpr (Or.inl rfl)
    refine ⟨.encode c, mem_liveCounters.mpr ⟨hmem, htenant, h.isLive⟩, ?_⟩
    rw [CounterRow.key, htype, hseries, hnext]
    rfl

end Store

/-- An exchange that puts a row under a key that had none. -/
def Exchange.Puts (tenant : Id) (key : CounterKey) (e : Exchange) : Prop :=
  ¬ e.before.HasKey tenant key ∧ e.after.HasKey tenant key

instance (tenant : Id) (key : CounterKey) : DecidablePred (Exchange.Puts tenant key) := fun e =>
  inferInstanceAs (Decidable (¬ e.before.HasKey tenant key ∧ e.after.HasKey tenant key))

/-- An exchange that was to number a document, and came after another change of it. -/
def Exchange.Late (e : Exchange) : Prop :=
  ∃ d expected a, e.step = .assignNumber d expected a ∧ e.reply = .error (.stale d.id)

namespace Program

variable {c : Counter} {a : Allocation}

/-- A program that has nothing left to do but to add a counter. -/
def Inserts (c : Counter) (p : Program (Except Failure α)) : Prop :=
  ∃ next, p = request (.insertCounter c) next ∧
    (∀ d, ∃ b, next (.ok d) = done (.ok b)) ∧
    ∀ taken, next (.error (.duplicate taken)) = done (.error c.key.conflict)

/-- A program that looks the key of a counter up, to add the counter where it finds none. -/
def Checks (c : Counter) (p : Program (Except Failure α)) : Prop :=
  ∃ next, p = request (.findCounterByKey c.tenant c.key) next ∧ Inserts c (next (.ok none)) ∧
    ∀ d, next (.ok (some d)) = done (.error c.key.conflict)

/-- A program that has nothing left to do but to allocate. -/
def Allocates (a : Allocation) (p : Program (Except Failure α)) : Prop :=
  ∃ next, p = request (.allocate a) next ∧ ∀ d, ∃ b, next (.ok d) = done (.ok b)

/-- How far a program that creates a counter has come, given whether it has put a row under the key
and whether there is one. -/
inductive Creating (c : Counter) (put held : Prop) (p : Program (Except Failure α)) : Prop
  | checks (waits : ¬ put) (rest : p.Checks c)
  | inserts (waits : ¬ put) (rest : p.Inserts c)
  | won {b : α} (first : put) (rest : p = done (.ok b))
  | lost (waits : ¬ put) (late : held) (rest : p = done (.error c.key.conflict))

/-- How far a program that allocates has come. -/
inductive Drawing (a : Allocation) (p : Program (Except Failure α)) : Prop
  | waits {next : (Step.acquire a.stream).Reply → Program (Except Failure α)}
      (rest : p = request (.acquire a.stream) next) (locked : (next (.ok ())).Allocates a)
  | allocates (rest : p.Allocates a)
  | drawn {b : α} (rest : p = done (.ok b))

theorem Creating.mono {put held held' : Prop} {p : Program (Except Failure α)}
    (h : p.Creating c put held) (hheld : held → held') : p.Creating c put held' := by
  cases h with
  | checks waits rest => exact .checks waits rest
  | inserts waits rest => exact .inserts waits rest
  | won first rest => exact .won first rest
  | lost waits late rest => exact .lost waits (hheld late) rest

end Program

namespace Service

open Docket.Action

variable {service : Service} {call : Call} {tenant : Id}

theorem checks_createCounter {new : NewCounter} (hcall : call.ActsFor tenant)
    (hnew : checkNewCounter new = .ok ()) :
    (service.createCounter call new).run.Checks (service.newCounter call tenant new) := by
  rw [createCounter, run_scope_bind hcall, run_check_bind hnew, run_start_bind hcall]
  exact ⟨_, run_ask_bind (.findCounterByKey tenant new.key) _,
    ⟨_, rfl, fun _ => ⟨_, rfl⟩, fun _ => rfl⟩, fun _ => rfl⟩

theorem drawing_generateNumber {documentType : Id} {series : String} (hcall : call.ActsFor tenant)
    (htype : checkDocumentType documentType = .ok ()) :
    (service.generateNumber call documentType series).run.Drawing
      (service.allocation call ⟨tenant, documentType, series⟩) := by
  rw [run_generateNumber hcall.scope hcall.going htype]
  obtain ⟨next, hnext, hok⟩ := exists_retrying_bind
    (.allocate (service.allocation call ⟨tenant, documentType, series⟩)) (service.attempts - 1) _
  exact .waits rfl ⟨next, hnext, fun d => ⟨_, hok d⟩⟩

end Service

section Exchange

open Program

variable {tenant fresh : Id} {key : CounterKey} {c : Counter} {a : Allocation} {e : Exchange}
  {p : Program (Except Failure α)} {year : Int}

/-- What an exchange of a call leaves as it is, with an identifier for what it may add, and what is
left of the call. -/
structure Plays (tenant : Id) (key : CounterKey) (fresh : Id) (e : Exchange)
    (p : Program (Except Failure α)) : Prop where
  ready : e.after.Ready (key.stream tenant)
  keeps : e.before.HasKey tenant key → e.after.HasKey tenant key
  others : ∀ id, id ≠ fresh → e.after.hasCounter id = e.before.hasCounter id
  unused : (∃ step next, p = .request step next) → e.after.hasCounter fresh = false
  allocates : ∀ b, Scene.allocation? e.step = some b → b.stream = key.stream tenant →
    e.reply.isOk ∨ e.Late

theorem plays_of_same (hs : e.before.Ready (key.stream tenant))
    (hid : e.before.hasCounter fresh = false) (hafter : e.after = e.before)
    (hallocates : ∀ b, Scene.allocation? e.step = some b → b.stream = key.stream tenant →
      e.reply.isOk ∨ e.Late) :
    Plays tenant key fresh e p :=
  { ready := hafter ▸ hs
    keeps := fun h => hafter ▸ h
    others := fun _ _ => hafter ▸ rfl
    unused := fun _ => hafter ▸ hid
    allocates := hallocates }

theorem Exchange.not_puts (h : e.after = e.before) : ¬ e.Puts tenant key := by
  rintro ⟨hbefore, hafter⟩
  exact hbefore (h ▸ hafter)

variable {s t : Store} {step : Step} {next : step.Reply → Program (Except Failure α)}
  {reply : step.Reply} {put : Prop}

theorem Program.Creating.plays (hs : s.Ready (c.key.stream c.tenant))
    (hyear : c.year = some year) (hne : year ≠ 0) (hc : c.Storable) (hlive : c.isLive)
    (hid : s.hasCounter c.id = false) (hrest : p = .request step next)
    (hperform : s.perform step = (reply, t))
    (h : p.Creating c put (s.HasKey c.tenant c.key)) :
    Plays c.tenant c.key c.id ⟨s, step, reply, t⟩ (next reply) ∧
      (next reply).Creating c (put ∨ Exchange.Puts c.tenant c.key ⟨s, step, reply, t⟩)
        (t.HasKey c.tenant c.key) := by
  cases h with
  | checks waits rest =>
    obtain ⟨next', hnext, hnone, hsome⟩ := rest
    cases hrest.symm.trans hnext
    have hfind : (s.findCounterByKey c.tenant c.key, s) = (reply, t) := hperform
    obtain ⟨hreply, rfl⟩ := Prod.mk.inj hfind
    refine ⟨plays_of_same hs hid rfl nofun, ?_⟩
    by_cases hkey : s.HasKey c.tenant c.key
    · obtain ⟨d, hd⟩ := hs.findCounterByKey_of_hasKey hkey
      obtain rfl : reply = .ok (some d) := hreply.symm.trans hd
      exact .lost (not_or.mpr ⟨waits, Exchange.not_puts rfl⟩) hkey (hsome d)
    · obtain rfl : reply = .ok none := hreply.symm.trans (findCounterByKey_of_not_hasKey hkey)
      exact .inserts (not_or.mpr ⟨waits, Exchange.not_puts rfl⟩) hnone
  | inserts waits rest =>
    obtain ⟨next', hnext, hok, herror⟩ := rest
    cases hrest.symm.trans hnext
    have hinsert : s.insertCounter c = (reply, t) := hperform
    by_cases hkey : s.HasKey c.tenant c.key
    · obtain ⟨rfl, rfl⟩ := Prod.mk.inj
        (hinsert.symm.trans (insertCounter_of_hasKey rfl rfl hlive hkey))
      refine ⟨plays_of_same hs hid rfl nofun, ?_⟩
      exact .lost (not_or.mpr ⟨waits, Exchange.not_puts rfl⟩) hkey (herror _)
    · obtain ⟨u, hu, hadd⟩ := exists_insertCounter hyear hne rfl rfl hc hid hkey
      obtain ⟨rfl, rfl⟩ := Prod.mk.inj (hinsert.symm.trans hu)
      have hheld := hasKey_of_addCounter rfl rfl hlive hadd
      obtain ⟨b, hb⟩ := hok c
      refine ⟨?_, .won (Or.inr ⟨hkey, hheld⟩) hb⟩
      exact {
        ready := hs.add hadd hc
        keeps := fun _ => hheld
        others := fun id hne => hasCounter_addCounter_of_ne hadd hne
        unused := fun ⟨_, _, h⟩ => absurd (hb.symm.trans h) nofun
        allocates := fun _ h => absurd h nofun }
  | won first rest => cases hrest.symm.trans rest
  | lost waits late rest => cases hrest.symm.trans rest

theorem Store.Ready.reply_of_allocation (hs : s.Ready a.stream)
    (hyear : 0 < a.year ∧ a.year < int32Bound)
    (hpadding : 1 ≤ a.defaults.padding ∧ a.defaults.padding ≤ 10)
    (hid : s.hasCounter a.fresh = false)
    (hvalues : ∀ r ∈ s.streamRows a.stream, r.value + 1 < int64Bound)
    (hstep : Scene.allocation? step = some a) (hperform : s.perform step = (reply, t)) :
    reply.isOk ∨ Exchange.Late ⟨s, step, reply, t⟩ := by
  have hadmits := hs.admits hyear hpadding hid hvalues
  have hne := Int.ne_of_gt hyear.1
  obtain ⟨rfl, rfl⟩ := Prod.ext_iff.mp hperform
  cases step with
  | allocate b =>
    obtain rfl := Option.some.inj hstep
    obtain ⟨c, u, hadvance⟩ := hadmits.exists_advance hne hs.toLawful
    rw [perform, hadvance]
    exact Or.inl rfl
  | assignNumber d expected b =>
    obtain rfl := Option.some.inj hstep
    rcases hs.reply_of_assignNumber hadmits hne d expected with ⟨x, hx⟩ | hstale
    · rw [hx]
      exact Or.inl rfl
    · exact Or.inr ⟨d, expected, b, rfl, hstale⟩
  | _ => cases hstep

theorem plays_of_asks {service : Service} {call : Call} {request : Request}
    (hs : s.Ready (key.stream tenant)) (hkey : key.year = some year)
    (hyear : 0 < year ∧ year < int32Bound)
    (hpadding : 1 ≤ service.defaults.padding ∧ service.defaults.padding ≤ 10)
    (hnow : call.now.year = year) (hid : s.hasCounter call.fresh = false)
    (hvalues : ∀ r ∈ s.streamRows (key.stream tenant), r.value + 1 < int64Bound)
    (hasks : request.Asks service call step) (hnumber : request.asksNumber = true)
    (hperform : s.perform step = (reply, t))
    (hends : ∀ issue, step.issue? reply = some issue → ∃ x, p = .done x) :
    Plays tenant key call.fresh ⟨s, step, reply, t⟩ p := by
  subst hnow
  have hallocates : ∀ a, Scene.allocation? step = some a → a.stream = key.stream tenant →
      reply.isOk ∨ Exchange.Late ⟨s, step, reply, t⟩ := by
    intro a ha hstream
    obtain ⟨stream, rfl⟩ := Request.allocation_of_asks hasks ha
    obtain rfl : stream = key.stream tenant := hstream
    exact hs.reply_of_allocation hyear hpadding hid hvalues ha hperform
  have hreplies : s.Replies step reply t := by
    obtain ⟨rfl, rfl⟩ := Prod.ext_iff.mp hperform
    exact .served
  rcases hreplies.none_or_advances hs.toKeyed (Request.read_or_allocation_of_asks hnumber hasks)
    with ⟨-, rfl⟩ | ⟨a, c, u, ha, hadvances, hcounters, hissue⟩
  · exact plays_of_same hs hid rfl hallocates
  · obtain ⟨stream, rfl⟩ := Request.allocation_of_asks hasks ha
    obtain ⟨x, hx⟩ := hends _ hissue
    constructor
    case ready =>
      refine ⟨hreplies.lawful hs.toLawful, ?_⟩
      rw [streamRows_congr hcounters]
      exact hadvances.exists_rows_of_ready hs
    case keeps =>
      exact fun h => (hasKey_congr hcounters).mpr (hadvances.hasKey hs.toKeyed hkey h)
    case others =>
      intro id hne
      rw [hasCounter_congr hcounters, hadvances.hasCounter_of_ne hne]
    case unused => exact fun ⟨_, _, h⟩ => absurd (hx.symm.trans h) nofun
    case allocates => exact hallocates

theorem Program.Drawing.answered (h : p.Drawing a) (hstream : a.stream = key.stream tenant)
    (hrest : p = .request step next) (hperform : s.perform step = (reply, t))
    (hplays : Plays tenant key fresh ⟨s, step, reply, t⟩ (next reply)) :
    (next reply).Drawing a := by
  cases h with
  | waits rest locked =>
    cases hrest.symm.trans rest
    obtain ⟨rfl, -⟩ := Prod.ext_iff.mp hperform
    exact .allocates locked
  | allocates rest =>
    obtain ⟨next', hnext, hok⟩ := rest
    cases hrest.symm.trans hnext
    rcases hplays.allocates a rfl hstream with hreply | ⟨d, expected, b, hstep, -⟩
    · cases reply with
      | ok c =>
        obtain ⟨x, hx⟩ := hok c
        exact .drawn hx
      | error f => cases hreply
    · cases hstep
  | drawn rest => cases hrest.symm.trans rest

end Exchange

def Request.creates : Request → Bool
  | createCounter _ => true
  | _ => false

theorem Request.creates_of_asksNumber {request : Request} (h : request.asksNumber = true) :
    request.creates = false := by
  cases request with
  | createCounter => cases h
  | _ => rfl

section Run

open Course

variable {ι : Type} {service : Service} {jobs : ι → Job} {tenant : Id} {key : CounterKey}
  {year : Int}

/-- Calls of a tenant that race for a key of a year: some create a counter of the key, and the
others take numbers in that year, of its stream or of another one, for documents or without. -/
structure Racing (service : Service) (jobs : ι → Job) (tenant : Id) (key : CounterKey)
    (year : Int) : Prop where
  documentType : checkDocumentType key.documentType = .ok ()
  keyYear : key.year = some year
  yearFits : 0 < year ∧ year < int32Bound
  padding : 1 ≤ service.defaults.padding ∧ service.defaults.padding ≤ 10
  acts : ∀ i, (jobs i).call.ActsFor tenant
  requests : ∀ i,
    (∃ new, (jobs i).request = .createCounter new ∧ new.key = key ∧ checkNewCounter new = .ok ()) ∨
      (jobs i).request.asksNumber = true ∧ (jobs i).call.now.year = year
  apart : ∀ i j, (jobs i).call.fresh = (jobs j).call.fresh → i = j

/-- How far a racing call has come, given whether it has put a row under the key and whether there
is one. -/
inductive Racer (service : Service) (tenant : Id) (key : CounterKey) (year : Int) (job : Job)
    (put held : Prop) (p : Program job.Answer) : Prop
  | creating {new : NewCounter} (request : job.request = .createCounter new)
      (sameKey : new.key = key) (valid : checkNewCounter new = .ok ())
      (stage : p.Creating (service.newCounter job.call tenant new) put held)
  | drawing (asks : job.request.asksNumber = true) (sameYear : job.call.now.year = year)
      (conducts : ∃ told, service.Conducts job.call job.request p told)
      (draws : job.request = .generateNumber key.documentType key.series →
        p.Drawing (service.allocation job.call (key.stream tenant)))

theorem Racer.mono {job : Job} {put held held' : Prop} {p : Program job.Answer}
    (h : Racer service tenant key year job put held p) (hheld : held → held') :
    Racer service tenant key year job put held' p := by
  cases h with
  | creating request sameKey valid stage =>
    exact .creating request sameKey valid (stage.mono hheld)
  | drawing asks sameYear conducts draws => exact .drawing asks sameYear conducts draws

theorem Racing.standing (h : Racing service jobs tenant key year) (i : ι) {put held : Prop}
    (hput : ¬ put) :
    Racer service tenant key year (jobs i) put held ((jobs i).program service) := by
  have hacts := h.acts i
  have hrequest := h.requests i
  generalize jobs i = job at hacts hrequest
  obtain ⟨call, request⟩ := job
  rcases hrequest with ⟨new, rfl, hkey, hnew⟩ | ⟨hasks, hyear⟩
  · exact .creating rfl hkey hnew (.checks hput (Service.checks_createCounter hacts hnew))
  · refine .drawing hasks hyear ⟨[], service.conducts_serve call request⟩ ?_
    rintro rfl
    exact Service.drawing_generateNumber hacts h.documentType

theorem Racing.plays (hrace : Racing service jobs tenant key year) {i : ι} {s t : Store}
    (hs : s.Ready (key.stream tenant)) (hid : s.hasCounter (jobs i).call.fresh = false)
    (hvalues : ∀ r ∈ s.streamRows (key.stream tenant), r.value + 1 < int64Bound) {put : Prop}
    {p : Program (jobs i).Answer} {step : Step} {next : step.Reply → Program (jobs i).Answer}
    {reply : step.Reply} (hrest : p = .request step next) (hperform : s.perform step = (reply, t))
    (h : Racer service tenant key year (jobs i) put (s.HasKey tenant key) p) :
    Plays tenant key (jobs i).call.fresh ⟨s, step, reply, t⟩ (next reply) ∧
      Racer service tenant key year (jobs i)
        (put ∨ Exchange.Puts tenant key ⟨s, step, reply, t⟩) (t.HasKey tenant key)
        (next reply) := by
  cases h with
  | @creating new request sameKey valid stage =>
    subst sameKey
    have hstorable : (service.newCounter (jobs i).call tenant new).Storable := by
      refine ⟨padding_of_checkSettings (settings_of_checkNewCounter valid), fun y hy => ?_⟩
      rw [← Option.some.inj (hrace.keyYear.symm.trans hy)]
      exact ⟨Int.le_trans (by decide) (Int.le_of_lt hrace.yearFits.1), hrace.yearFits.2⟩
    obtain ⟨hplays, hstage⟩ := stage.plays hs hrace.keyYear (Int.ne_of_gt hrace.yearFits.1)
      hstorable rfl hid hrest hperform
    exact ⟨hplays, .creating request rfl valid hstage⟩
  | drawing asks sameYear conducts draws =>
    subst hrest
    obtain ⟨told, ⟨owner, -, prompted⟩, hnext⟩ := conducts
    have hconducts : service.Conducts (jobs i).call (jobs i).request (next reply)
        (told ++ [⟨step, reply⟩]) := hnext reply
    have hends : ∀ issue, step.issue? reply = some issue → ∃ a, next reply = .done a := by
      intro issue hissue
      obtain ⟨hwrite, hok⟩ := Step.write_of_issue? hissue
      have hlast := List.mem_append_right told (List.mem_singleton_self ⟨step, reply⟩)
      obtain ⟨a, ha, -⟩ := hconducts.done_of_write hlast hwrite hok
      exact ⟨a, ha⟩
    have hplays := plays_of_asks hs hrace.keyYear hrace.yearFits hrace.padding sameYear hid hvalues
      prompted.asks asks hperform hends
    exact ⟨hplays, .drawing asks sameYear ⟨_, hconducts⟩ fun h =>
      (draws h).answered rfl rfl hperform hplays⟩

variable [DecidableEq ι] {σ τ : Course ι fun i => (jobs i).Answer} {i : ι}

/-- A course in which no request is refused and the values of a stream can still grow. -/
structure Untroubled (stream : Stream) (σ : Course ι fun i => (jobs i).Answer) : Prop where
  served : ∀ p ∈ σ.trace, p.2.Served
  values : ∀ p ∈ σ.trace, ∀ r ∈ p.2.before.streamRows stream, r.value + 1 < int64Bound

/-- A row gets under the key in one exchange at most, and then stays there. -/
structure Contested (service : Service) (tenant : Id) (key : CounterKey) (year : Int)
    (σ : Course ι fun i => (jobs i).Answer) : Prop where
  ready : σ.store.Ready (key.stream tenant)
  standing : ∀ i, Racer service tenant key year (jobs i)
    (∃ e ∈ σ.own i, e.Puts tenant key) (σ.store.HasKey tenant key) (σ.rest i)
  unused : ∀ i, σ.Active i → σ.store.hasCounter (jobs i).call.fresh = false
  held : σ.store.HasKey tenant key ↔ ∃ p ∈ σ.trace, p.2.Puts tenant key
  once : ∀ p ∈ σ.trace, ∀ q ∈ σ.trace, p.2.Puts tenant key → q.2.Puts tenant key → p.1 = q.1
  allocates : ∀ p ∈ σ.trace, ∀ a, Scene.allocation? p.2.step = some a →
    a.stream = key.stream tenant → p.2.reply.isOk ∨ p.2.Late

theorem Racing.start (hrace : Racing service jobs tenant key year) {s : Store}
    (hs : s.Ready (key.stream tenant)) (hkey : ¬ s.HasKey tenant key)
    (hids : ∀ i, s.hasCounter (jobs i).call.fresh = false) :
    Contested service tenant key year (.start s fun i => (jobs i).program service) :=
  { ready := hs
    standing := fun i => hrace.standing i fun ⟨_, he, _⟩ => absurd he List.not_mem_nil
    unused := fun i _ => hids i
    held := iff_of_false hkey fun ⟨_, hp, _⟩ => absurd hp List.not_mem_nil
    once := fun _ hp => absurd hp List.not_mem_nil
    allocates := fun _ hp => absurd hp List.not_mem_nil }

/-- What one exchange of a racing call preserves. -/
theorem Contested.reply (hσ : Contested service tenant key year σ)
    (hrace : Racing service jobs tenant key year) {e : Exchange} {p : Program (jobs i).Answer}
    (hbefore : e.before = σ.store) (hactive : σ.Active i)
    (hplays : Plays tenant key (jobs i).call.fresh e p)
    (hstanding : Racer service tenant key year (jobs i)
      ((∃ x ∈ σ.own i, x.Puts tenant key) ∨ e.Puts tenant key) (e.after.HasKey tenant key) p) :
    Contested service tenant key year (σ.reply i e p) := by
  have hkeeps := hplays.keeps
  rw [hbefore] at hkeeps
  have hfirst : e.Puts tenant key → ∀ q ∈ σ.trace, ¬ q.2.Puts tenant key := fun he q hq hputs =>
    he.1 (hbefore ▸ hσ.held.mpr ⟨q, hq, hputs⟩)
  constructor
  case ready => exact hplays.ready
  case standing =>
    intro j
    by_cases hj : j = i
    · subst hj
      rw [reply_rest_self, own_reply_self, reply_store]
      simpa only [List.mem_append, List.mem_singleton, or_and_right, exists_or, exists_eq_left]
        using hstanding
    · rw [reply_rest_of_ne hj, own_reply_of_ne hj]
      exact (hσ.standing j).mono hkeeps
  case unused =>
    intro j hj
    by_cases hji : j = i
    · subst hji
      obtain ⟨step, next, hrest⟩ := hj
      rw [reply_rest_self] at hrest
      exact hplays.unused ⟨step, next, hrest⟩
    · have hfresh : (jobs j).call.fresh ≠ (jobs i).call.fresh := fun h => hji (hrace.apart j i h)
      rw [reply_store, hplays.others _ hfresh, hbefore]
      exact hσ.unused j (hj.of_reply hactive)
  case held =>
    rw [reply_store, reply_trace]
    constructor
    · intro hafter
      by_cases hkey : σ.store.HasKey tenant key
      · obtain ⟨q, hq, hputs⟩ := hσ.held.mp hkey
        exact ⟨q, List.mem_append_left _ hq, hputs⟩
      · exact ⟨(i, e), List.mem_append_right _ (List.mem_singleton_self _), hbefore ▸ hkey, hafter⟩
    · rintro ⟨q, hq, hputs⟩
      rcases List.mem_append.mp hq with hq | hq
      · exact hkeeps (hσ.held.mpr ⟨q, hq, hputs⟩)
      · rw [List.mem_singleton.mp hq] at hputs
        exact hputs.2
  case once =>
    intro q hq r hr hqputs hrputs
    rcases List.mem_append.mp hq with hq | hq <;> rcases List.mem_append.mp hr with hr | hr
    · exact hσ.once q hq r hr hqputs hrputs
    · rw [List.mem_singleton.mp hr] at hrputs
      exact absurd hqputs (hfirst hrputs q hq)
    · rw [List.mem_singleton.mp hq] at hqputs
      exact absurd hrputs (hfirst hqputs r hr)
    · rw [List.mem_singleton.mp hq, List.mem_singleton.mp hr]
  case allocates =>
    intro q hq a ha
    rcases List.mem_append.mp hq with hq | hq
    · exact hσ.allocates q hq a ha
    · obtain rfl := List.mem_singleton.mp hq
      exact hplays.allocates a ha

theorem Contested.move (h : Move σ τ) (hσ : Contested service tenant key year σ)
    (hrace : Racing service jobs tenant key year) (hτ : Untroubled (key.stream tenant) τ) :
    Contested service tenant key year τ := by
  obtain ⟨hrest, -⟩ := h
  rename_i i step next reply t
  have hlast := List.mem_append_right σ.trace
    (List.mem_singleton_self (i, Exchange.mk σ.store step reply t))
  obtain ⟨hplays, hstanding⟩ := hrace.plays hσ.ready (hσ.unused i ⟨step, next, hrest⟩)
    (hτ.values _ hlast) hrest (hτ.served _ hlast) (hσ.standing i)
  exact hσ.reply hrace rfl ⟨step, next, hrest⟩ hplays hstanding

theorem Untroubled.of_move {stream : Stream} (h : Move σ τ) (hτ : Untroubled stream τ) :
    Untroubled stream σ := by
  obtain ⟨-, -⟩ := h
  exact ⟨fun p hp => hτ.served p (List.mem_append_left _ hp),
    fun p hp => hτ.values p (List.mem_append_left _ hp)⟩

theorem contested_of_reaches (h : Reaches σ τ) (hσ : Contested service tenant key year σ)
    (hrace : Racing service jobs tenant key year) (hτ : Untroubled (key.stream tenant) τ) :
    Contested service tenant key year τ := by
  induction h with
  | refl => exact hσ
  | tail _ h ih => exact (ih (hτ.of_move h)).move h hrace hτ

namespace Racer

variable {job : Job} {put held : Prop} {p : Program job.Answer}
  (h : Racer service tenant key year job put held p)

include h

theorem ended (hcreates : job.request.creates) {a : Except Failure (Outcome job.request.Answer)}
    (hp : p = .done a) : put ∧ a.isOk ∨ held ∧ a = .error key.conflict := by
  cases h with
  | creating request sameKey valid stage =>
    subst sameKey
    cases stage with
    | checks waits rest =>
      obtain ⟨next, hnext, -⟩ := rest
      cases hp.symm.trans hnext
    | inserts waits rest =>
      obtain ⟨next, hnext, -⟩ := rest
      cases hp.symm.trans hnext
    | won first rest =>
      obtain rfl := Program.done.inj (hp.symm.trans rest)
      exact Or.inl ⟨first, rfl⟩
    | lost waits late rest => exact Or.inr ⟨late, Program.done.inj (hp.symm.trans rest)⟩
  | drawing asks => cases hcreates.symm.trans (Request.creates_of_asksNumber asks)

theorem won (hcreates : job.request.creates) (hput : put) : ∃ b, p = .done (.ok b) := by
  cases h with
  | creating request sameKey valid stage =>
    cases stage with
    | checks waits => exact absurd hput waits
    | inserts waits => exact absurd hput waits
    | won first rest => exact ⟨_, rest⟩
    | lost waits => exact absurd hput waits
  | drawing asks => cases hcreates.symm.trans (Request.creates_of_asksNumber asks)

theorem not_failed (hdraws : job.request = .generateNumber key.documentType key.series)
    {f : Failure} : p ≠ .done (.error f) := by
  rintro rfl
  cases h with
  | creating request => cases request.symm.trans hdraws
  | drawing asks sameYear conducts draws =>
    cases draws hdraws with
    | waits rest => cases rest
    | allocates rest =>
      obtain ⟨next, hnext, -⟩ := rest
      cases hnext
    | drawn rest => cases rest

end Racer

theorem Contested.put_of_succeeds (hσ : Contested service tenant key year σ)
    (hcreates : (jobs i).request.creates) (hi : σ.succeeds i) :
    ∃ e, (i, e) ∈ σ.trace ∧ e.Puts tenant key := by
  obtain ⟨a, hdone⟩ := succeeds_iff.mp hi
  rcases (hσ.standing i).ended hcreates hdone with ⟨⟨e, he, hputs⟩, -⟩ | ⟨-, hlost⟩
  · exact ⟨e, mem_own_iff.mp he, hputs⟩
  · cases hlost

theorem Contested.succeeds_of_put (hσ : Contested service tenant key year σ)
    (hcreates : (jobs i).request.creates) {e : Exchange} (he : (i, e) ∈ σ.trace)
    (hputs : e.Puts tenant key) : σ.succeeds i :=
  succeeds_iff.mpr ((hσ.standing i).won hcreates ⟨e, mem_own_iff.mpr he, hputs⟩)

theorem Contested.held_of_done (hσ : Contested service tenant key year σ)
    (hcreates : (jobs i).request.creates) {a : (jobs i).Answer} (hdone : σ.rest i = .done a) :
    σ.store.HasKey tenant key := by
  rcases (hσ.standing i).ended hcreates hdone with ⟨⟨e, he, hputs⟩, -⟩ | ⟨held, -⟩
  · exact hσ.held.mpr ⟨(i, e), mem_own_iff.mp he, hputs⟩
  · exact held

theorem Store.Lawful.existsUnique_of_hasKey {s : Store} (hs : s.Lawful) (h : s.HasKey tenant key) :
    ∃! r, r ∈ s.liveCounters tenant ∧ r.key = key := by
  obtain ⟨r, hr, hkey⟩ := h
  refine ⟨r, ⟨hr, hkey⟩, fun q ⟨hq, hqkey⟩ => ?_⟩
  obtain ⟨hr, hrt, hrlive⟩ := mem_liveCounters.mp hr
  obtain ⟨hq, hqt, hqlive⟩ := mem_liveCounters.mp hq
  have hkeys := liveKey_eq_of_key (hqt.trans hrt.symm) (hqkey.trans hkey.symm)
  exact hs.counter_eq hq hr (hs.liveKeys q hq r hr hqlive hrlive hkeys)

/-- Of the calls that create a counter of a key one succeeds, the one that is first to put a row
under it, unless a call for a number is; the others fail alike, whether they find the row or meet it
as they add theirs. Each allocation in the stream goes through, unless it was for a document that
has changed, and one live counter has the key in the end. -/
theorem first_creation_wins {s : Store} (hrace : Racing service jobs tenant key year)
    (hs : s.Ready (key.stream tenant)) (hkey : ¬ s.HasKey tenant key)
    (hids : ∀ i, s.hasCounter (jobs i).call.fresh = false)
    (hreaches : Reaches (.start s fun i => (jobs i).program service) σ)
    (hσ : Untroubled (key.stream tenant) σ) :
    (∀ i j, (jobs i).request.creates → (jobs j).request.creates →
        σ.succeeds i → σ.succeeds j → i = j) ∧
      (∀ i f, (jobs i).request.creates → σ.failure? i = some f → f = key.conflict) ∧
      (∀ p ∈ σ.trace, ∀ a, Scene.allocation? p.2.step = some a → a.stream = key.stream tenant →
        p.2.reply.isOk ∨ p.2.Late) ∧
      (∀ i, (jobs i).request = .generateNumber key.documentType key.series →
        σ.failure? i = none) ∧
      ((∃ p ∈ σ.trace, (jobs p.1).request.creates = false ∧ p.2.Puts tenant key) →
        ∀ i, (jobs i).request.creates → σ.succeeds i = false) ∧
      ∀ i a, (jobs i).request.creates → σ.rest i = .done a →
        ((∃! j, (jobs j).request.creates ∧ σ.succeeds j) ↔
            ∀ p ∈ σ.trace, p.2.Puts tenant key → (jobs p.1).request.creates) ∧
          ∃! r, r ∈ σ.store.liveCounters tenant ∧ r.key = key := by
  have hcontested := contested_of_reaches hreaches (hrace.start hs hkey hids) hrace hσ
  have honce : ∀ i j, (jobs i).request.creates → (jobs j).request.creates →
      σ.succeeds i → σ.succeeds j → i = j := by
    intro i j hi hj hwins hwins'
    obtain ⟨e, he, hputs⟩ := hcontested.put_of_succeeds hi hwins
    obtain ⟨x, hx, hputs'⟩ := hcontested.put_of_succeeds hj hwins'
    exact hcontested.once _ he _ hx hputs hputs'
  have hbeaten : ∀ p ∈ σ.trace, p.2.Puts tenant key → (jobs p.1).request.creates = false →
      ∀ i, (jobs i).request.creates → σ.succeeds i = false := by
    intro p hp hputs hdraws i hi
    by_contra hwins
    obtain ⟨e, he, hputs'⟩ := hcontested.put_of_succeeds hi (Bool.eq_true_of_not_eq_false hwins)
    obtain rfl : p.1 = i := hcontested.once p hp _ he hputs hputs'
    exact Bool.false_ne_true (hdraws.symm.trans hi)
  refine ⟨honce, fun i f hi hf => ?_, hcontested.allocates, fun i hi => ?_,
    fun ⟨p, hp, hdraws, hputs⟩ => hbeaten p hp hputs hdraws, fun i a hi hdone => ⟨?_, ?_⟩⟩
  · rcases (hcontested.standing i).ended hi (failure?_eq_some_iff.mp hf) with ⟨-, hok⟩ | ⟨-, hlost⟩
    · cases hok
    · exact Except.error.inj hlost
  · cases hf : σ.failure? i with
    | none => rfl
    | some f => exact absurd (failure?_eq_some_iff.mp hf) ((hcontested.standing i).not_failed hi)
  · constructor
    · rintro ⟨j, ⟨hj, hwins⟩, -⟩ p hp hputs
      by_contra hdraws
      have hlost := hbeaten p hp hputs (Bool.eq_false_of_not_eq_true hdraws) j hj
      exact Bool.false_ne_true (hlost.symm.trans hwins)
    · intro hfirst
      obtain ⟨p, hp, hputs⟩ := hcontested.held.mp (hcontested.held_of_done hi hdone)
      have hp' := hfirst p hp hputs
      refine ⟨p.1, ⟨hp', hcontested.succeeds_of_put hp' hp hputs⟩, fun j ⟨hj, hwins⟩ => ?_⟩
      exact honce j p.1 hj hp' hwins (hcontested.succeeds_of_put hp' hp hputs)
  · exact hcontested.ready.toLawful.existsUnique_of_hasKey (hcontested.held_of_done hi hdone)

/-- The key of the first series in the year that the calls are made in. -/
def firstKey : CounterKey := ⟨.ofNat 3, "", some firstCall.call.now.year⟩

/-- Two calls for a counter of the key, and one for a number. -/
def racing : Fin 3 → Job
  | 0 => { firstCall with request := .createCounter ⟨firstKey, 7, {}⟩ }
  | 1 =>
    { call := { firstCall.call with fresh := .ofNat 4 }
      request := .createCounter ⟨firstKey, 0, {}⟩ }
  | 2 => { firstCall with call := { firstCall.call with fresh := .ofNat 5 } }

/-- Both calls look for the key before either adds its counter, and the number comes last. -/
def raced : Course (Fin 3) fun i => (racing i).Answer :=
  (start {} fun i => (racing i).program {}).replay (List.finRange 3 ++ List.finRange 3)

theorem racing_firstKey : Racing {} racing (.ofNat 1) firstKey firstCall.call.now.year := by
  constructor
  case requests =>
    intro i
    match i with
    | 0 => exact Or.inl ⟨_, rfl, rfl, by decide +kernel⟩
    | 1 => exact Or.inl ⟨_, rfl, rfl, by decide +kernel⟩
    | 2 => exact Or.inr ⟨rfl, rfl⟩
  case acts =>
    intro i
    match i with
    | 0 | 1 | 2 => exact ⟨rfl, rfl⟩
  all_goals decide +kernel

theorem first_creation_wins_raced :
    raced.succeeds 0 ∧ raced.failure? 1 = some firstKey.conflict ∧ raced.succeeds 2 ∧
      ∃! r, r ∈ raced.store.liveCounters (.ofNat 1) ∧ r.key = firstKey := by
  have huntroubled : Untroubled (firstKey.stream (.ofNat 1)) raced :=
    ⟨served_replay (fun _ hp => absurd hp List.not_mem_nil) _, by decide +kernel⟩
  have hready : Store.Ready {} (firstKey.stream (.ofNat 1)) := ⟨lawful_empty, _, rfl⟩
  obtain ⟨-, hlosers, -, -, -, hend⟩ := first_creation_wins racing_firstKey hready
    (by decide +kernel) (by decide +kernel) (reaches_replay _ _) huntroubled
  have hwins : raced.succeeds 0 := by decide +kernel
  obtain ⟨a, ha⟩ := succeeds_iff.mp hwins
  obtain ⟨f, hf⟩ : ∃ f, raced.failure? 1 = some f :=
    Option.isSome_iff_exists.mp (by decide +kernel)
  refine ⟨hwins, ?_, by decide +kernel, (hend 0 _ rfl ha).2⟩
  rw [hf, hlosers 1 f rfl hf]

end Run

end Docket
