import Docket.Proofs.Turns

/-! # No number is handed out twice

Counters of a stream take turns as years pass: they change their years in place, and their settings
decide which of them serves. A number that was handed out stays spent through all this. Either the
live counter of its year has gone at least as far, or no live counter has its year and none will
have it again.
-/

namespace Docket

open Store Issuing Simulation

namespace Store

variable {s t u : Store} {stream : Stream} {year : Option Int} {value : Int} {past : Int → Prop}
  {a : Allocation} {c : Counter}

/-- Whether a number of a stream is spent, given which years are past for the stream. -/
def Spent (s : Store) (stream : Stream) (year : Option Int) (value : Int) (past : Int → Prop) :
    Prop :=
  (∃ r ∈ s.streamRows stream, r.year = year ∧ value ≤ r.value) ∨
    (∀ r ∈ s.streamRows stream, r.year ≠ year) ∧ ∀ y ∈ year, past y

theorem Spent.mono {later : Int → Prop} (h : s.Spent stream year value past)
    (hpast : ∀ y, past y → later y) : s.Spent stream year value later :=
  h.imp_right fun ⟨hrows, hyear⟩ => ⟨hrows, fun y hy => hpast y (hyear y hy)⟩

/-- Rows that tell the same numbers from the others. -/
def CounterRow.Alike (q r : CounterRow) : Prop :=
  q.stream = r.stream ∧ q.isLive = r.isLive ∧ q.year = r.year ∧ q.value = r.value

theorem CounterRow.Alike.refl (r : CounterRow) : r.Alike r := ⟨rfl, rfl, rfl, rfl⟩

theorem Spent.map (h : s.Spent stream year value past) {f : CounterRow → CounterRow}
    (hf : ∀ r, (f r).Alike r) (ht : t.counters = s.counters.map f) :
    t.Spent stream year value past := by
  have hrows : ∀ r ∈ s.counters, f r ∈ t.streamRows stream ↔ r ∈ s.streamRows stream := by
    intro r hr
    obtain ⟨hstream, hlive, -, -⟩ := hf r
    rw [mem_streamRows, mem_streamRows, ht, hstream, hlive]
    exact and_congr_left fun _ => iff_of_true (List.mem_map_of_mem hr) hr
  rcases h with ⟨r, hr, hy, hv⟩ | ⟨hrows', hyear⟩
  · obtain ⟨-, -, hfy, hfv⟩ := hf r
    refine Or.inl ⟨f r, (hrows r (mem_streamRows.mp hr).1).mpr hr, hfy.trans hy, ?_⟩
    rw [hfv]
    exact hv
  · refine Or.inr ⟨fun q hq => ?_, hyear⟩
    obtain ⟨r, hr, rfl⟩ := List.mem_map.mp (ht ▸ (mem_streamRows.mp hq).1)
    rw [(hf r).2.2.1]
    exact hrows' r ((hrows r hr).mp hq)

theorem Advances.mem_streamRows_iff (h : s.Advances a c t) (hu : u.counters = t.counters)
    {q : CounterRow} :
    q ∈ u.streamRows stream ↔
      q = .encode c ∧ stream = a.stream ∨ q ∈ s.streamRows stream ∧ q.id ≠ c.id := by
  rw [streamRows_congr hu, Store.mem_streamRows, Store.mem_streamRows, h.mem_counters]
  constructor
  · rintro ⟨rfl | ⟨hq, hi⟩, hs, hl⟩
    · exact Or.inl ⟨rfl, hs.symm.trans h.stream⟩
    · exact Or.inr ⟨⟨hq, hs, hl⟩, hi⟩
  · rintro (⟨rfl, rfl⟩ | ⟨⟨hq, hs, hl⟩, hi⟩)
    · exact ⟨Or.inl rfl, h.stream, h.isLive⟩
    · exact ⟨Or.inr ⟨hq, hi⟩, hs, hl⟩

theorem Advances.spent (h : s.Advances a c t) (hu : u.counters = t.counters) :
    u.Spent a.stream c.year c.value past :=
  Or.inl ⟨_, (h.mem_streamRows_iff hu).mpr (Or.inl ⟨rfl, rfl⟩), rfl, Int.le_refl _⟩

theorem Spent.lt_of_advances (h : s.Spent a.stream year value past) (hs : s.Lawful)
    (hpast : ∀ y, past y → y < a.year) (ha : s.Advances a c t) (hy : year = c.year) :
    value < c.value := by
  subst hy
  rcases ha.begins_or_goes_on hs.toKeyed with ⟨hyear, hnone, -⟩ | ⟨q, hq, -, hqy, hqv⟩
  · rcases h with ⟨r, hr, hry, -⟩ | ⟨-, hyears⟩
    · exact absurd (hry.trans hyear) (hnone r hr)
    · exact absurd (hpast _ (hyears a.year hyear)) (Int.lt_irrefl _)
  · rcases h with ⟨r, hr, hry, hrv⟩ | ⟨hnone, -⟩
    · rw [hs.eq_of_year hr hq (hry.trans hqy.symm)] at hrv
      omega
    · exact absurd hqy (hnone q hq)

/-- An allocation keeps numbers spent; years before its own are past for its stream. -/
theorem Spent.of_advances (h : s.Spent stream year value past) (hs : s.Lawful)
    (hpast : stream = a.stream → ∀ y, past y → y < a.year) (ha : s.Advances a c t)
    (hu : u.counters = t.counters) :
    u.Spent stream year value fun y => past y ∨ stream = a.stream ∧ y < a.year := by
  have hbegins := ha.begins_or_goes_on hs.toKeyed
  rcases h with ⟨r, hr, rfl, hrv⟩ | ⟨hnone, hyears⟩
  · by_cases hi : r.id = c.id
    · -- The counter of the number's year is the one that was advanced.
      obtain ⟨hrm, rfl, -⟩ := mem_streamRows.mp hr
      have hstream := ha.stream_of_id hs.toKeyed hrm hi
      rw [hstream] at hr ⊢
      rcases hbegins with ⟨hyear, hother, hreached⟩ | ⟨q, hq, hqi, hqy, hqv⟩
      · refine Or.inr ⟨fun q hq hqy => ?_, fun y hy => Or.inr ⟨rfl, ?_⟩⟩
        · rcases (ha.mem_streamRows_iff hu).mp hq with ⟨rfl, -⟩ | ⟨hq, hqi⟩
          · exact hother r hr (hqy.symm.trans hyear)
          · exact hqi ((congrArg CounterRow.id (hs.eq_of_year hq hr hqy)).trans hi)
        · have hle := hreached r hr hi y hy
          have hne : y ≠ a.year := fun h => hother r hr (h ▸ hy)
          omega
      · obtain rfl := hs.counter_eq (mem_streamRows.mp hq).1 hrm (hqi.trans hi.symm)
        refine Or.inl ⟨_, (ha.mem_streamRows_iff hu).mpr (Or.inl ⟨rfl, rfl⟩), hqy.symm, ?_⟩
        exact Int.le_trans hrv (Int.le_of_lt hqv)
    · exact Or.inl ⟨r, (ha.mem_streamRows_iff hu).mpr (Or.inr ⟨hr, hi⟩), rfl, hrv⟩
  · refine Or.inr ⟨fun q hq hqy => ?_, fun y hy => Or.inl (hyears y hy)⟩
    rcases (ha.mem_streamRows_iff hu).mp hq with ⟨rfl, rfl⟩ | ⟨hq, -⟩
    · subst hqy
      rcases hbegins with ⟨hyear, -, -⟩ | ⟨q, hq, -, hqy, -⟩
      · exact absurd (hpast rfl _ (hyears a.year hyear)) (Int.lt_irrefl _)
      · exact hnone q hq hqy
    · exact hnone q hq hqy

theorem Replies.exists_alike {step : Step} {reply : step.Reply} (h : s.Replies step reply t)
    (hallocation : Scene.allocation? step = none) (hinsert : ∀ c, step ≠ .insertCounter c)
    (hretire : ∀ tenant id stamp, step ≠ .retireCounter tenant id stamp) :
    ∃ f : CounterRow → CounterRow, (∀ r, (f r).Alike r) ∧ t.counters = s.counters.map f := by
  have hsame : ∀ {u : Store}, u.counters = s.counters →
      ∃ f : CounterRow → CounterRow, (∀ r, (f r).Alike r) ∧ u.counters = s.counters.map f :=
    fun hu => ⟨id, CounterRow.Alike.refl, hu.trans (List.map_id _).symm⟩
  cases h with
  | refused => exact hsame rfl
  | served =>
    cases step with
    | allocate | assignNumber => cases hallocation
    | insertCounter c => exact absurd rfl (hinsert c)
    | retireCounter tenant id stamp => exact absurd rfl (hretire tenant id stamp)
    | updateSettings c =>
      simp only [perform, Store.updateSettings]
      split
      · exact hsame rfl
      · refine ⟨fun r => if r.id = c.id then r.configured c else r, fun r => ?_, rfl⟩
        dsimp only
        split
        · exact .refl r
        · exact .refl r
    | insertDocument d =>
      exact hsame (commit_induction (P := fun t => t.counters = s.counters) rfl
        fun _ _ h => insertDocument_counters h)
    | applyChange d expected c =>
      exact hsame (commit_induction (P := fun t => t.counters = s.counters) rfl
        fun _ _ h => applyChange_counters h)
    | _ => exact hsame rfl

/-- A request that adds and retires no counter keeps the counters alike and takes no number, or
makes an allocation and takes its number. -/
theorem Replies.alike_or_advances {step : Step} {reply : step.Reply} (h : s.Replies step reply t)
    (hs : s.Keyed) (hinsert : ∀ c, step ≠ .insertCounter c)
    (hretire : ∀ tenant id stamp, step ≠ .retireCounter tenant id stamp) :
    (step.issue? reply = none ∧ ∃ f : CounterRow → CounterRow, (∀ r, (f r).Alike r) ∧
        t.counters = s.counters.map f) ∨
      ∃ a c u, Scene.allocation? step = some a ∧ s.Advances a c u ∧ t.counters = u.counters ∧
        step.issue? reply = some (a.stream, c.number) := by
  cases hallocation : Scene.allocation? step with
  | none =>
    exact Or.inl ⟨Step.issue?_of_allocation? hallocation reply,
      h.exists_alike hallocation hinsert hretire⟩
  | some a =>
    rw [← hallocation]
    exact (h.none_or_advances hs (Or.inr ⟨a, hallocation⟩)).imp_left fun ⟨hissue, ht⟩ =>
      ⟨hissue, id, CounterRow.Alike.refl, by rw [ht, List.map_id]⟩

end Store

namespace Request

variable {service : Service} {call : Call} {request : Request} {step : Step}

/-- Whether a request leaves it to allocations to add counters, and retires none. -/
def keepsCounters : Request → Bool
  | createCounter _ => false
  | deleteCounter _ => false
  | _ => true

theorem ne_insertCounter_of_asks (hrequest : request.keepsCounters = true)
    (h : Asks service call request step) (c : Counter) : step ≠ .insertCounter c := by
  rintro rfl
  cases request with
  | createCounter => cases hrequest
  | _ => exact h.elim

theorem ne_retireCounter_of_asks (hrequest : request.keepsCounters = true)
    (h : Asks service call request step) (tenant id : Id) (stamp : Stamp) :
    step ≠ .retireCounter tenant id stamp := by
  rintro rfl
  cases request with
  | deleteCounter => cases hrequest
  | _ => exact h.elim

end Request

section Run

variable {ι : Type} {service : Service} {jobs : ι → Job} {σ τ : Course ι fun i => (jobs i).Answer}
  {a : Allocation} {c : Counter} {u : Store}

/-- Years before that of some number that has been taken from a stream. -/
def Past (jobs : ι → Job) (σ : Course ι fun i => (jobs i).Answer) (stream : Stream) (y : Int) :
    Prop :=
  ∃ p ∈ σ.issued, p.2.1 = stream ∧ y < (jobs p.1).call.now.year

theorem Past.mono {stream : Stream} {y : Int} (h : Past jobs σ stream y)
    (hissued : ∀ p ∈ σ.issued, p ∈ τ.issued) : Past jobs τ stream y := by
  obtain ⟨p, hp, hs, hy⟩ := h
  exact ⟨p, hissued p hp, hs, hy⟩

variable [DecidableEq ι]

/-- All numbers that have been taken are spent, and differ. -/
structure Spending (service : Service) (jobs : ι → Job)
    (σ : Course ι fun i => (jobs i).Answer) : Prop extends Conducted service jobs σ where
  lawful : σ.store.Lawful
  spent : ∀ p ∈ σ.issued, σ.store.Spent p.2.1 p.2.2.year p.2.2.value (Past jobs σ p.2.1)
  nodup : (σ.issued.map fun p => (p.2.1, p.2.2.year, p.2.2.value)).Nodup

section Reply

variable {i : ι} {e : Exchange} {p : Program (jobs i).Answer}

theorem Spending.of_alike (hσ : Spending service jobs σ) (hlawful : e.after.Lawful)
    (hconducted : Conducted service jobs (σ.reply i e p))
    (hissue : e.step.issue? e.reply = none) {f : CounterRow → CounterRow}
    (hf : ∀ r, (f r).Alike r) (hafter : e.after.counters = σ.store.counters.map f) :
    Spending service jobs (σ.reply i e p) := by
  have hissued : (σ.reply i e p).issued = σ.issued := by
    rw [Course.issued_reply, hissue]
    exact List.append_nil _
  refine ⟨hconducted, hlawful, fun q hq => ?_, ?_⟩
  · rw [hissued] at hq
    exact ((hσ.spent q hq).map hf hafter).mono fun y hy => hy.mono fun r hr => hissued ▸ hr
  · rw [hissued]
    exact hσ.nodup

theorem Spending.of_advances (hσ : Spending service jobs σ) (hlawful : e.after.Lawful)
    (hconducted : Conducted service jobs (σ.reply i e p))
    (hissue : e.step.issue? e.reply = some (a.stream, c.number))
    (hadvances : σ.store.Advances a c u) (hafter : e.after.counters = u.counters)
    (hyear : a.year = (jobs i).call.now.year) (hclock : Chronological jobs (σ.reply i e p)) :
    Spending service jobs (σ.reply i e p) := by
  have hissued : (σ.reply i e p).issued = σ.issued ++ [(i, a.stream, c.number)] := by
    rw [Course.issued_reply, hissue]
    rfl
  have hpast : ∀ y, Past jobs σ a.stream y → y < a.year := by
    rintro y ⟨q, hq, hstream, hy⟩
    rw [Chronological, hissued] at hclock
    have hle := (List.pairwise_append.mp hclock).2.2 q hq _ (List.mem_singleton_self _) hstream
    rw [hyear]
    exact Int.lt_of_lt_of_le hy hle
  refine ⟨hconducted, hlawful, fun q hq => ?_, ?_⟩
  · rw [hissued] at hq
    rcases List.mem_append.mp hq with hq | hq
    · refine ((hσ.spent q hq).of_advances hσ.lawful (fun h => h ▸ hpast) hadvances hafter).mono ?_
      rintro y (hy | ⟨hstream, hy⟩)
      · exact hy.mono fun r hr => hissued ▸ List.mem_append_left _ hr
      · refine ⟨(i, a.stream, c.number), hissued ▸ List.mem_append_right _ ?_, hstream.symm, ?_⟩
        · exact List.mem_singleton_self _
        · rw [← hyear]; exact hy
    · rw [List.mem_singleton.mp hq]
      exact hadvances.spent hafter
  · rw [hissued, List.map_append, List.map_singleton, ← List.concat_eq_append]
    refine hσ.nodup.concat fun hm => ?_
    obtain ⟨q, hq, he⟩ := List.mem_map.mp hm
    obtain ⟨hstream, he⟩ := Prod.ext_iff.mp he
    obtain ⟨hyears, hvalue⟩ := Prod.ext_iff.mp he
    have hspent := hσ.spent q hq
    rw [hstream] at hspent
    have hlt := hspent.lt_of_advances hσ.lawful hpast hadvances hyears
    exact absurd hvalue (Int.ne_of_lt hlt)

end Reply

theorem Spending.move (h : Course.Move σ τ) (hσ : Spending service jobs σ)
    (hjobs : ∀ i, (jobs i).request.keepsCounters = true) (hclock : Chronological jobs τ) :
    Spending service jobs τ := by
  have hconducted := hσ.toConducted.move h
  obtain ⟨hrest, hreplies⟩ := h
  rename_i i step next reply t
  have hask := hσ.asks hrest
  have hlawful : t.Lawful := hreplies.lawful hσ.lawful
  rcases hreplies.alike_or_advances hσ.lawful.toKeyed
      (Request.ne_insertCounter_of_asks (hjobs i) hask)
      (Request.ne_retireCounter_of_asks (hjobs i) hask) with
    ⟨hissue, f, hf, hafter⟩ | ⟨a, c, u, hstep, hadvances, hafter, hissue⟩
  · exact hσ.of_alike hlawful hconducted hissue hf hafter
  · have hyear := Request.year_of_asks hask hstep
    exact hσ.of_advances hlawful hconducted hissue hadvances hafter hyear hclock

theorem Chronological.of_move (h : Course.Move σ τ) (hclock : Chronological jobs τ) :
    Chronological jobs σ := by
  obtain ⟨hrest, hreplies⟩ := h
  rw [Chronological, Course.issued_reply] at hclock
  exact (List.pairwise_append.mp hclock).1

theorem spending_of_reaches (h : Course.Reaches σ τ) (hσ : Spending service jobs σ)
    (hjobs : ∀ i, (jobs i).request.keepsCounters = true) (hclock : Chronological jobs τ) :
    Spending service jobs τ := by
  induction h with
  | refl => exact hσ
  | tail _ h ih => exact (ih (hclock.of_move h)).move h hjobs hclock

/-- Where no counter is added or retired but by allocations, no number of a stream is taken twice,
not even from different counters, as long as the clock does not go back; and a call that succeeds
has taken the number that it answers. -/
theorem numbers_distinct {s : Store} {m : Machine ι fun i => (jobs i).Answer} {clock : Nat → Int}
    (hs : s.Lawful) (hjobs : ∀ i, (jobs i).request.keepsCounters = true)
    (hm : Machine.Reaches (.start s fun i => (jobs i).program service) m)
    (hclock : Forward clock) (hread : ReadsClock jobs clock m.toCourse) :
    (m.issued.map fun p => (p.2.1, p.2.2.year, p.2.2.value)).Nodup ∧
      ∀ i outcome, (jobs i).request.asksNumber = true → m.rest i = .done (.ok outcome) →
        ∃ stream n, (i, stream, n) ∈ m.issued ∧
          Service.Hands service (jobs i).call (jobs i).request outcome stream n := by
  have hreach := Machine.reaches_start hm
  have hstart : Spending service jobs (.start s fun i => (jobs i).program service) :=
    { conducted_start s with
      lawful := hs
      spent := fun p hp => absurd hp List.not_mem_nil
      nodup := List.nodup_nil }
  have hchronological := chronological_of_reaches hm hclock hread
  exact ⟨(spending_of_reaches hreach hstart hjobs hchronological).nodup,
    fun i outcome hjob hdone => (Course.reported_of_reaches hreach).handed hjob hdone⟩

/-- A lasting counter and one of a year, both of one stream. -/
def twoCounters : Store :=
  { contested with
    counters :=
      [.encode { contestedCounter (.ofNat 4) none with value := 3, settings.resets := false },
        .encode { contestedCounter (.ofNat 5) (some 2025) with value := 4 }] }

/-- Calls for numbers before and after the year ends; one makes the lasting counter one that resets,
and one is for the number of a draft. -/
def renumbering : Fin 5 → Job
  | 0 => contestedJob (.generateNumber firstStream.documentType firstStream.series)
  | 1 => (contestedJob (.generateNumber firstStream.documentType firstStream.series)).nextYear
  | 2 => (contestedJob (.updateCounter (.ofNat 4) {})).nextYear
  | 3 => (contestedJob (.generateNumber firstStream.documentType firstStream.series)).nextYear
  | 4 => (contestedJob (.assignNumber contestedDraft.id firstStream.series)).nextYear

def renumbered : Machine (Fin 5) fun i => (renumbering i).Answer :=
  (Machine.start twoCounters fun i => (renumbering i).program {}).replay
    (Course.turnsOf 5 [4, 0, 0, 2, 0, 1, 4, 1, 1, 3, 4, 2, 3, 2, 3, 3, 4, 4, 4])

/-- The year that the clock shows after so many requests. -/
def yearShown (k : Nat) : Int := if k < 4 then 2025 else 2026

/-- In the new year the lasting counter goes on, until it resets as well and the other one, which
moves on to that year, comes first. -/
theorem numbers_distinct_renumbered :
    (renumbered.issued.map fun p => (p.2.1, p.2.2.year, p.2.2.value)).Nodup ∧
      (renumbered.issued.map fun p => (p.1, p.2.2.counter, p.2.2.year, p.2.2.value))
        = [(0, .ofNat 5, some 2025, 5), (1, .ofNat 4, none, 4), (3, .ofNat 5, some 2026, 1),
          (4, .ofNat 5, some 2026, 2)] := by
  have hlawful : twoCounters.Lawful := ⟨⟨by decide, by decide⟩, by decide⟩
  have hclock : Forward yearShown := by
    intro k l hkl
    unfold yearShown
    split <;> split <;> omega
  have hread : ReadsClock renumbering yearShown renumbered.toCourse :=
    readsClock_of_shown (by decide +kernel)
  refine ⟨?_, by decide +kernel⟩
  exact (numbers_distinct hlawful (by decide) (Machine.reaches_replay _ _) hclock hread).1

end Run

end Docket
