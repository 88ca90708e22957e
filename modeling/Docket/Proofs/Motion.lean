import Mathlib.Data.List.Chain
import Docket.Proofs.Gapless

/-! # How counters move

A counter keeps its identity for good, and once retired it stays so. Its year and value change only
as a number is taken from it: it goes on by one, or begins anew in a year that it has not reached
yet. The clock may read what it likes; a counter of a later year is left alone.
-/

namespace Docket

open Store Issuing Simulation

namespace Store

/-- A row that is a later state of another one: what identifies it has stayed. -/
structure CounterRow.Persists (r q : CounterRow) : Prop where
  id : q.id = r.id
  stream : q.stream = r.stream
  created : q.created = r.created
  retired : ∀ time, r.retired = some time → q.retired = some time

/-- How the year and the value of a row move as a number is taken in a year. -/
inductive CounterRow.Moves (year : Int) (r q : CounterRow) : Prop
  | counts (same : q.year = r.year) (value : q.value = r.value + 1)
  | begins (resets : r.resets = true) (earlier : ∀ y ∈ r.year, y < year)
      (current : q.year = some year) (value : q.value = 1)

namespace CounterRow.Persists

variable {r q p : CounterRow}

theorem refl (r : CounterRow) : r.Persists r := ⟨rfl, rfl, rfl, fun _ h => h⟩

theorem trans (h : r.Persists q) (h' : q.Persists p) : r.Persists p :=
  { id := h'.id.trans h.id
    stream := h'.stream.trans h.stream
    created := h'.created.trans h.created
    retired := fun time ht => h'.retired time (h.retired time ht) }

theorem retire (r : CounterRow) (hlive : r.isLive) (stamp : Stamp) :
    r.Persists (r.retire stamp) := by
  refine ⟨rfl, rfl, rfl, fun time ht => ?_⟩
  rw [isLive, ht] at hlive
  cases hlive

end CounterRow.Persists

variable {s t : Store} {step : Step} {reply : step.Reply} {a : Allocation} {c : Counter}
  {r q : CounterRow}

theorem persists_next (a : Allocation) (d : Counter) :
    (CounterRow.encode d).Persists (.encode (a.next d)) := by
  by_cases hrolls : a.Rolls d
  · rw [Allocation.next_of_rolls hrolls]
    exact ⟨rfl, rfl, rfl, fun _ h => h⟩
  · rw [Allocation.next_of_not_rolls hrolls]
    exact ⟨rfl, rfl, rfl, fun _ h => h⟩

theorem moves_next {counters : List Counter} {d : Counter}
    (hselect : select? counters a.year = some d) :
    (CounterRow.encode d).Moves a.year (.encode (a.next d)) := by
  by_cases hrolls : a.Rolls d
  · rw [Allocation.next_of_rolls hrolls]
    exact .begins hrolls.1 (fun y hy => year_lt_of_select? hselect hrolls.2 hy) rfl rfl
  · rw [Allocation.next_of_not_rolls hrolls]
    exact .counts rfl rfl

namespace Advances

/-- The row that a number is taken from moves, and all others are left as they are. -/
theorem moves (h : s.Advances a c t) (hs : s.Keyed) (hr : r ∈ s.counters) :
    r ∈ t.counters ∧ r.id ≠ c.id ∨
      r.isLive ∧ r.id = c.id ∧ r.Persists (.encode c) ∧ r.Moves a.year (.encode c) := by
  by_cases hid : r.id = c.id
  · cases h with
    | first rows selected keyFree idFree => exact absurd hid (idFree r hr)
    | @next counters d rows selected =>
      obtain ⟨hd, -, hlive, -⟩ := mem_of_rows rows (mem_of_select? selected)
      obtain rfl := hs.counter_eq hr hd (hid.trans (Allocation.next_id a d))
      exact Or.inr ⟨hlive, hid, persists_next a d, moves_next selected⟩
  · exact Or.inl ⟨h.mem_counters.mpr (Or.inr ⟨hr, hid⟩), hid⟩

theorem mem_of_later (h : s.Advances a c t) (hs : s.Keyed) (hr : r ∈ s.counters) {y : Int}
    (hy : r.year = some y) (hlater : a.year < y) : r ∈ t.counters := by
  refine h.mem_counters.mpr (Or.inr ⟨hr, fun hid => ?_⟩)
  cases h with
  | first rows selected keyFree idFree => exact idFree r hr hid
  | @next counters d rows selected =>
    obtain ⟨hd, -⟩ := mem_of_rows rows (mem_of_select? selected)
    obtain rfl := hs.counter_eq hr hd (hid.trans (Allocation.next_id a d))
    have hother : d.year ≠ some a.year := fun hyear =>
      Int.ne_of_lt hlater (Option.some.inj (hyear.symm.trans hy))
    exact Int.lt_asymm hlater (year_lt_of_select? selected hother hy)

end Advances

theorem Keyed.of_ids (hs : s.Keyed)
    (hcounters : t.counters.map CounterRow.id = s.counters.map CounterRow.id)
    (hdocuments : t.documents.map DocumentRow.id = s.documents.map DocumentRow.id) : t.Keyed :=
  ⟨hcounters ▸ hs.counterIds, hdocuments ▸ hs.documentIds⟩

theorem Advances.keyed (h : s.Advances a c t) (hs : s.Keyed) : t.Keyed := by
  cases h with
  | first rows selected keyFree idFree => exact hs.add idFree
  | next rows selected => exact hs.replace fun _ _ _ => Allocation.next_id _ _

theorem Effect.keyed {issue : Option (Stream × Number)} (h : s.Effect a issue t) (hs : s.Keyed) :
    t.Keyed := by
  cases h with
  | none => exact hs
  | some advances counters documentIds =>
    refine (advances.keyed hs).of_ids (congrArg _ counters) ?_
    rw [documentIds, advances.tables]

/-- Rows that are later states of those before, of the same year and value. -/
structure Rests (s t : Store) : Prop where
  keyed : t.Keyed
  rows : ∀ r ∈ s.counters, ∃ q ∈ t.counters, r.Persists q ∧ q.year = r.year ∧ q.value = r.value

theorem Keyed.rests_of_counters (ht : t.Keyed) (h : t.counters = s.counters) : s.Rests t :=
  ⟨ht, fun r hr => ⟨r, h ▸ hr, .refl r, rfl, rfl⟩⟩

theorem Keyed.rests_of_map (hs : s.Keyed) {f : CounterRow → CounterRow}
    (hf : ∀ r, r.Persists (f r) ∧ (f r).year = r.year ∧ (f r).value = r.value) :
    s.Rests { s with counters := s.counters.map f } := by
  constructor
  · refine hs.of_ids ?_ rfl
    rw [List.map_map]
    exact List.map_congr_left fun r _ => (hf r).1.id
  · exact fun r hr => ⟨f r, List.mem_map_of_mem hr, hf r⟩

theorem Keyed.rests_perform (hs : s.Keyed) (hstep : Scene.allocation? step = none) :
    s.Rests (s.perform step).2 := by
  have hrefl : s.Rests s := hs.rests_of_counters rfl
  cases step with
  | allocate | assignNumber => cases hstep
  | insertCounter c =>
    simp only [perform, insertCounter]
    cases hadd : s.addCounter (.encode c) with
    | error f => exact hrefl
    | ok t =>
      obtain ⟨-, hid, rfl⟩ := addCounter_eq_ok_iff.mp hadd
      exact ⟨hs.add hid, fun r hr => ⟨r, List.mem_append_left _ hr, .refl r, rfl, rfl⟩⟩
  | updateSettings c =>
    simp only [perform, updateSettings]
    split
    · exact hrefl
    · refine hs.rests_of_map fun r => ?_
      split
      · exact ⟨⟨rfl, rfl, rfl, fun _ h => h⟩, rfl, rfl⟩
      · exact ⟨.refl r, rfl, rfl⟩
  | retireCounter tenant id stamp =>
    simp only [perform, retireCounter]
    split
    · refine hs.rests_of_map fun r => ?_
      split
      · next h => exact ⟨.retire r h.2.2 stamp, rfl, rfl⟩
      · exact ⟨.refl r, rfl, rfl⟩
    · exact hrefl
  | insertDocument d =>
    refine commit_induction (P := fun t => s.Rests t) hrefl fun e t h => ?_
    obtain ⟨hid, -, rfl⟩ := insertDocument_eq_ok_iff.mp h
    refine Keyed.rests_of_counters ⟨hs.counterIds, ?_⟩ rfl
    rw [List.map_append, List.map_singleton, ← List.concat_eq_append]
    refine hs.documentIds.concat fun hm => ?_
    obtain ⟨r, hr, h⟩ := List.mem_map.mp hm
    exact hid r hr h
  | applyChange d expected c =>
    refine commit_induction (P := fun t => s.Rests t) hrefl fun e t h => ?_
    have hcounters := applyChange_counters h
    obtain ⟨u, hchange, -, -, rfl⟩ := applyChange_eq_ok_iff.mp h
    have hids := changeDocument_documentIds (f := fun r => r.moved d) (fun _ => rfl) hchange
    exact Keyed.rests_of_counters (hs.of_ids (congrArg _ hcounters) hids) hcounters
  | _ => exact hrefl

end Store

/-- What an exchange does to a row of a counter: nothing that concerns numbers, or a number is taken
from it. -/
inductive Exchange.Fares (e : Exchange) (year : Int) (r q : CounterRow) : Prop
  | rests (quiet : ∀ taken, e.step.issue? e.reply = some taken → taken.2.counter ≠ r.id)
      (persists : r.Persists q) (sameYear : q.year = r.year) (sameValue : q.value = r.value)
  | moves {n : Number} (persists : r.Persists q) (live : r.isLive)
      (issue : e.step.issue? e.reply = some (r.stream, n)) (counter : n.counter = r.id)
      (number : n.year = q.year ∧ n.value = q.value) (moves : r.Moves year q)

namespace Store

variable {s t : Store} {step : Step} {reply : step.Reply} {a : Allocation} {r : CounterRow}
  {year : Int}

theorem Replies.keyed (h : s.Replies step reply t) (hs : s.Keyed) : t.Keyed := by
  cases hstep : Scene.allocation? step with
  | some a => exact (h.effect hs hstep).keyed hs
  | none =>
    cases h with
    | served => exact (hs.rests_perform hstep).keyed
    | refused => exact hs

theorem Replies.fares (h : s.Replies step reply t) (hs : s.Keyed)
    (hyear : ∀ a, Scene.allocation? step = some a → a.year = year) (hr : r ∈ s.counters) :
    ∃ q ∈ t.counters, Exchange.Fares ⟨s, step, reply, t⟩ year r q := by
  have hquiet : step.issue? reply = none →
      ∀ taken, step.issue? reply = some taken → taken.2.counter ≠ r.id := by
    intro hnone taken htaken
    cases hnone.symm.trans htaken
  cases hstep : Scene.allocation? step with
  | none =>
    replace hquiet := hquiet (Step.issue?_of_allocation? hstep reply)
    cases h with
    | refused => exact ⟨r, hr, .rests hquiet (.refl r) rfl rfl⟩
    | served =>
      obtain ⟨q, hq, hpersists, hsame, hvalue⟩ := (hs.rests_perform hstep).rows r hr
      exact ⟨q, hq, .rests hquiet hpersists hsame hvalue⟩
  | some a =>
    rcases h.none_or_advances hs (Or.inr ⟨a, hstep⟩) with
      ⟨hnone, rfl⟩ | ⟨b, c, u, hb, hadvances, hcounters, hissue⟩
    · exact ⟨r, hr, .rests (hquiet hnone) (.refl r) rfl rfl⟩
    · obtain rfl := Option.some.inj (hb.symm.trans hstep)
      rw [hcounters]
      rcases hadvances.moves hs hr with ⟨hkept, hother⟩ | ⟨hlive, hid, hpersists, hmoves⟩
      · refine ⟨r, hkept, .rests (fun taken htaken => ?_) (.refl r) rfl rfl⟩
        obtain rfl := Option.some.inj (hissue.symm.trans htaken)
        exact fun hid => hother hid.symm
      · refine ⟨.encode c, hadvances.mem_counters.mpr (Or.inl rfl), ?_⟩
        have hstream : b.stream = r.stream := hadvances.stream.symm.trans hpersists.stream
        rw [hstream] at hissue
        exact .moves hpersists hlive hissue hid.symm ⟨rfl, rfl⟩ (hyear b hstep ▸ hmoves)

theorem Replies.mem_of_later (h : s.Replies step reply t) (hs : s.Keyed)
    (hstep : Scene.allocation? step = some a) (hr : r ∈ s.counters) {y : Int}
    (hy : r.year = some y) (hlater : a.year < y) : r ∈ t.counters := by
  rcases h.none_or_advances hs (Or.inr ⟨a, hstep⟩) with
    ⟨-, rfl⟩ | ⟨b, c, u, hb, hadvances, hcounters, -⟩
  · exact hr
  · obtain rfl := Option.some.inj (hb.symm.trans hstep)
    rw [hcounters]
    exact hadvances.mem_of_later hs hr hy hlater

theorem Replies.exists_counter (h : s.Replies step reply t) (hs : s.Keyed) {stream : Stream}
    {n : Number} (hissue : step.issue? reply = some (stream, n)) :
    ∃ c : Counter, CounterRow.encode c ∈ t.counters ∧ n = c.number := by
  obtain ⟨a, hstep, -⟩ := Step.allocation?_of_issue? hissue
  rcases h.none_or_advances hs (Or.inr ⟨a, hstep⟩) with
    ⟨hnone, -⟩ | ⟨b, c, u, -, hadvances, hcounters, htaken⟩
  · cases hnone.symm.trans hissue
  · obtain ⟨-, rfl⟩ := Prod.ext_iff.mp (Option.some.inj (htaken.symm.trans hissue))
    exact ⟨c, hcounters ▸ hadvances.mem_counters.mpr (Or.inl rfl), rfl⟩

theorem Replies.exists_issued (h : s.Replies step reply t) (hs : s.Keyed) {stream : Stream}
    {n : Number} (hissue : step.issue? reply = some (stream, n)) :
    ∃ q ∈ t.counters, q.id = n.counter ∧ q.year = n.year ∧ q.value = n.value := by
  obtain ⟨c, hc, rfl⟩ := h.exists_counter hs hissue
  exact ⟨.encode c, hc, rfl, rfl, rfl⟩

end Store

namespace Number

/-- The order of numbers by year, no year before all others, and by value. -/
def Precedes (m n : Number) : Prop := m.year < n.year ∨ m.year = n.year ∧ m.value < n.value

/-- A number that the same counter hands out next. -/
inductive Follows (m n : Number) : Prop
  | counts (same : n.year = m.year) (value : n.value = m.value + 1)
  | begins (later : m.year < n.year)

variable {m n : Number}

theorem Follows.precedes (h : Follows m n) : m.Precedes n := by
  cases h with
  | counts same value => exact Or.inr ⟨same.symm, value ▸ Int.lt_succ m.value⟩
  | begins later => exact Or.inl later

theorem lt_irrefl_year (x : Option Int) : ¬ x < x := by
  cases x with
  | none => exact Option.not_lt_none
  | some a => exact mt Option.some_lt_some.mp (Int.lt_irrefl a)

theorem Follows.value_eq (h : Follows m n) (hyear : m.year = n.year) : n.value = m.value + 1 := by
  cases h with
  | counts same value => exact value
  | begins later =>
    rw [hyear] at later
    exact absurd later (lt_irrefl_year n.year)

theorem lt_trans_year {x y z : Option Int} (h : x < y) (h' : y < z) : x < z := by
  cases z with
  | none => exact absurd h' Option.not_lt_none
  | some c =>
    cases y with
    | none => exact absurd h Option.not_lt_none
    | some b =>
      cases x with
      | none => exact Option.none_lt_some
      | some a =>
        exact Option.some_lt_some.mpr
          (Int.lt_trans (Option.some_lt_some.mp h) (Option.some_lt_some.mp h'))

instance : Trans Precedes Precedes Precedes where
  trans := by
    rintro m n k (h | ⟨hy, hv⟩) (h' | ⟨hy', hv'⟩)
    · exact Or.inl (lt_trans_year h h')
    · exact Or.inl (hy' ▸ h)
    · exact Or.inl (hy ▸ h')
    · exact Or.inr ⟨hy.trans hy', Int.lt_trans hv hv'⟩

end Number

section Fares

variable {e : Exchange} {year : Int} {r q : CounterRow} {m n : Number} {stream : Stream}

theorem Store.CounterRow.Moves.follows (h : r.Moves year q) (hyear : r.year = m.year)
    (hvalue : r.value = m.value) (hn : n.year = q.year ∧ n.value = q.value) : m.Follows n := by
  cases h with
  | counts same value =>
    refine .counts (hn.1.trans (same.trans hyear)) ?_
    rw [hn.2, value, hvalue]
  | begins resets earlier current value =>
    refine .begins ?_
    rw [hn.1, current, ← hyear]
    cases hr : r.year with
    | none => exact Option.none_lt_some
    | some y => exact Option.some_lt_some.mpr (earlier y hr)

/-- The number that is taken from a counter follows the one where it stood. -/
theorem Exchange.Fares.follows (h : e.Fares year r q)
    (hissue : e.step.issue? e.reply = some (stream, n)) (hcounter : n.counter = r.id)
    (hyear : r.year = m.year) (hvalue : r.value = m.value) : m.Follows n := by
  cases h with
  | rests quiet => exact absurd hcounter (quiet _ hissue)
  | moves persists live issue counter number moves =>
    obtain ⟨-, rfl⟩ := Prod.ext_iff.mp (Option.some.inj (issue.symm.trans hissue))
    exact moves.follows hyear hvalue number

theorem Exchange.Fares.stays (h : e.Fares year r q)
    (hissue : ∀ taken, e.step.issue? e.reply = some taken → taken.2.counter ≠ r.id) :
    q.year = r.year ∧ q.value = r.value := by
  cases h with
  | rests quiet persists sameYear sameValue => exact ⟨sameYear, sameValue⟩
  | moves persists live issue counter => exact absurd counter (hissue _ issue)

theorem Exchange.Fares.persists (h : e.Fares year r q) : r.Persists q := by
  cases h with
  | rests quiet persists => exact persists
  | moves persists => exact persists

end Fares

namespace Course

variable {ι : Type} {β : ι → Type} {σ : Course ι β}

def drawn (σ : Course ι β) (counter : Id) : List Number :=
  (σ.issued.map fun p => p.2.2).filter fun n => n.counter = counter

variable [DecidableEq ι] {i : ι} {e : Exchange} {p : Program (β i)} {counter : Id}

theorem drawn_reply_of_none (h : e.step.issue? e.reply = none) :
    (σ.reply i e p).drawn counter = σ.drawn counter := by
  rw [drawn, issued_reply, h, Option.map_none, Option.toList_none, List.append_nil]
  rfl

theorem drawn_reply_of_some {stream : Stream} {n : Number}
    (h : e.step.issue? e.reply = some (stream, n)) :
    (σ.reply i e p).drawn counter
      = if n.counter = counter then σ.drawn counter ++ [n] else σ.drawn counter := by
  rw [drawn, issued_reply, h, List.map_append, List.filter_append]
  split
  · next hn => simp [drawn, hn]
  · next hn => simp [drawn, hn]

end Course

section Run

open Course

variable {ι : Type} [DecidableEq ι] {service : Service} {jobs : ι → Job} {s : Store}
  {σ τ : Course ι fun i => (jobs i).Answer}

/-- How counters have moved in a course. -/
structure Motion (service : Service) (jobs : ι → Job) (s : Store)
    (σ : Course ι fun i => (jobs i).Answer) : Prop where
  /-- The counters that were there at first are there, with all that identifies them. -/
  persists : ∀ r ∈ s.counters, ∃ q ∈ σ.store.counters, r.Persists q
  /-- Each exchange leaves a counter where it stands or takes a number from it. -/
  fares : ∀ i e, (i, e) ∈ σ.trace → ∀ r ∈ e.before.counters,
    ∃ q ∈ e.after.counters, e.Fares (jobs i).call.now.year r q
  /-- Allocations leave counters of later years alone. -/
  later : ∀ i e, (i, e) ∈ σ.trace → (Scene.allocation? e.step).isSome = true →
    ∀ r ∈ e.before.counters, ∀ y ∈ r.year, (jobs i).call.now.year < y → r ∈ e.after.counters
  /-- Each number that is taken from a counter follows the one taken before. -/
  follows : ∀ counter, (σ.drawn counter).IsChain Number.Follows

/-- A counter stands where the last number was taken from it. -/
def Stands (σ : Course ι fun i => (jobs i).Answer) : Prop :=
  ∀ counter, ∀ n ∈ (σ.drawn counter).getLast?,
    ∃ r ∈ σ.store.counters, r.id = counter ∧ r.year = n.year ∧ r.value = n.value

structure InMotion (service : Service) (jobs : ι → Job) (s : Store)
    (σ : Course ι fun i => (jobs i).Answer) : Prop
    extends Motion service jobs s σ, Conducted service jobs σ where
  keyed : σ.store.Keyed
  stands : Stands σ

theorem inMotion_start (hs : s.Keyed) :
    InMotion service jobs s (.start s fun i => (jobs i).program service) :=
  { conducted_start s with
    persists := fun r hr => ⟨r, hr, .refl r⟩
    fares := fun _ _ h => absurd h List.not_mem_nil
    later := fun _ _ h => absurd h List.not_mem_nil
    follows := fun _ => .nil
    keyed := hs
    stands := fun _ _ h => absurd h nofun }

section Reply

variable {i : ι} {e : Exchange} {p : Program (jobs i).Answer} {year : Int}

/-- Every counter of the store fares somehow in the next exchange. -/
def AllFare (e : Exchange) (year : Int) : Prop :=
  ∀ r ∈ e.before.counters, ∃ q ∈ e.after.counters, e.Fares year r q

theorem follows_reply (hσ : InMotion service jobs s σ) (hbefore : e.before = σ.store)
    (hfare : AllFare e year) (counter : Id) :
    ((σ.reply i e p).drawn counter).IsChain Number.Follows := by
  cases hissue : e.step.issue? e.reply with
  | none =>
    rw [drawn_reply_of_none hissue]
    exact hσ.follows counter
  | some taken =>
    obtain ⟨stream, n⟩ := taken
    rw [drawn_reply_of_some hissue]
    split
    · next hcounter =>
      refine List.isChain_append.mpr ⟨hσ.follows counter, .singleton n, fun m hm k hk => ?_⟩
      obtain rfl : n = k := Option.some.inj hk
      obtain ⟨r, hr, hid, hyear, hvalue⟩ := hσ.stands counter m hm
      obtain ⟨q, -, hrq⟩ := hfare r (hbefore ▸ hr)
      exact hrq.follows hissue (hcounter.trans hid.symm) hyear hvalue
    · exact hσ.follows counter

theorem stands_reply (hσ : InMotion service jobs s σ) (hbefore : e.before = σ.store)
    (hfare : AllFare e year)
    (hissued : ∀ stream n, e.step.issue? e.reply = some (stream, n) →
      ∃ q ∈ e.after.counters, q.id = n.counter ∧ q.year = n.year ∧ q.value = n.value) :
    Stands (σ.reply i e p) := by
  intro counter n hn
  -- A counter that no number was taken from stands where it stood.
  have hkept : n ∈ (σ.drawn counter).getLast? →
      (∀ taken, e.step.issue? e.reply = some taken → taken.2.counter ≠ counter) →
      ∃ q ∈ e.after.counters, q.id = counter ∧ q.year = n.year ∧ q.value = n.value := by
    intro hlast hquiet
    obtain ⟨r, hr, rfl, hyear, hvalue⟩ := hσ.stands counter n hlast
    obtain ⟨q, hq, hrq⟩ := hfare r (hbefore ▸ hr)
    obtain ⟨hsame, hsame'⟩ := hrq.stays hquiet
    exact ⟨q, hq, hrq.persists.id, hsame.trans hyear, hsame'.trans hvalue⟩
  cases hissue : e.step.issue? e.reply with
  | none =>
    rw [drawn_reply_of_none hissue] at hn
    refine hkept hn fun taken htaken => ?_
    cases hissue.symm.trans htaken
  | some taken =>
    obtain ⟨stream, m⟩ := taken
    rw [drawn_reply_of_some hissue] at hn
    split at hn
    · next hcounter =>
      rw [List.getLast?_concat] at hn
      obtain rfl : m = n := Option.some.inj hn
      obtain ⟨q, hq, hid, hstands⟩ := hissued stream m hissue
      exact ⟨q, hq, hid.trans hcounter, hstands⟩
    · next hcounter =>
      refine hkept hn fun taken htaken => ?_
      obtain rfl := Option.some.inj (hissue.symm.trans htaken)
      exact hcounter

end Reply

theorem InMotion.move (h : Move σ τ) (hσ : InMotion service jobs s σ) :
    InMotion service jobs s τ := by
  have hconducted := hσ.toConducted.move h
  obtain ⟨hrest, hreplies⟩ := h
  rename_i i step next reply t
  have hasks := hσ.asks hrest
  have hyear : ∀ a, Scene.allocation? step = some a → a.year = (jobs i).call.now.year :=
    fun a ha => Request.year_of_asks hasks ha
  have hfare : AllFare ⟨σ.store, step, reply, t⟩ (jobs i).call.now.year :=
    fun r hr => hreplies.fares hσ.keyed hyear hr
  constructor
  case toMotion =>
    constructor
    case persists =>
      intro r hr
      obtain ⟨q, hq, hrq⟩ := hσ.persists r hr
      obtain ⟨p, hp, hqp⟩ := hfare q hq
      exact ⟨p, hp, hrq.trans hqp.persists⟩
    case fares =>
      intro j e he
      rcases List.mem_append.mp he with he | he
      · exact hσ.fares j e he
      · cases List.mem_singleton.mp he
        exact hfare
    case later =>
      intro j e he hallocates r hr y hy hlater
      rcases List.mem_append.mp he with he | he
      · exact hσ.later j e he hallocates r hr y hy hlater
      · cases List.mem_singleton.mp he
        obtain ⟨a, ha⟩ := Option.isSome_iff_exists.mp hallocates
        exact hreplies.mem_of_later hσ.keyed ha hr hy (hyear a ha ▸ hlater)
    case follows => exact follows_reply hσ rfl hfare
  case keyed => exact hreplies.keyed hσ.keyed
  case toConducted => exact hconducted
  case stands => exact stands_reply hσ rfl hfare fun _ _ => hreplies.exists_issued hσ.keyed

theorem inMotion_of_reaches (hs : s.Keyed)
    (h : Reaches (.start s fun i => (jobs i).program service) σ) :
    InMotion service jobs s σ := by
  induction h with
  | refl => exact inMotion_start hs
  | tail _ hmove ih => exact ih.move hmove

/-- Whatever calls are made and whatever their clocks read, counters only move as numbers are taken
from them, and the numbers of a counter increase by year and value, without a gap in a year. -/
theorem counters_move (hs : s.Keyed)
    (h : Reaches (.start s fun i => (jobs i).program service) σ) :
    Motion service jobs s σ ∧ ∀ counter, (σ.drawn counter).Pairwise Number.Precedes ∧
      (σ.drawn counter).IsChain fun m n => m.year = n.year → n.value = m.value + 1 := by
  have hmotion := inMotion_of_reaches hs h
  refine ⟨hmotion.toMotion, fun counter => ?_⟩
  have hfollows := hmotion.follows counter
  constructor
  · exact List.isChain_iff_pairwise.mp (hfollows.imp fun _ _ h => h.precedes)
  · exact hfollows.imp fun _ _ h => h.value_eq

def numberAt (second : Int) (fresh : Id) : Job :=
  { call :=
      { caller := { tenant := some firstStream.tenant }
        now := { (default : Time.Instant) with second := second }
        fresh := fresh }
    request := .generateNumber firstStream.documentType firstStream.series }

/-- Calls of the years 2025 and 2026, and one more of 2025. -/
def turning : Fin 3 → Job
  | 0 => numberAt 1750000000 (.ofNat 2)
  | 1 => numberAt 1780000000 (.ofNat 3)
  | 2 => numberAt 1750000000 (.ofNat 4)

def turned : Course (Fin 3) fun i => (turning i).Answer :=
  (start {} fun i => (turning i).program {}).replay [0, 0, 1, 1, 2, 2]

theorem counters_move_turned :
    Motion {} turning {} turned ∧
      ((turned.drawn (.ofNat 2)).map fun n => (n.year, n.value))
        = [(some 2025, 1), (some 2026, 1)] := by
  have hmoves : Motion {} turning {} turned ∧ _ :=
    counters_move lawful_empty.toKeyed (reaches_replay _ _)
  exact ⟨hmoves.1, by decide +kernel⟩

end Run

end Docket
