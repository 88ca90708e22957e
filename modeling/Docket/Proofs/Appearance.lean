import Docket.Proofs.Layout
import Docket.Proofs.Motion

/-! # Numbers of one counter

A counter never comes back to a year and value that it has had. As long as it shows its numbers
without a pattern, with the same lead and padding, no two of them look alike.
-/

namespace Docket

open Store Issuing Simulation

/-- An exchange takes a number from a counter, and leaves its row so. -/
structure Exchange.Draws (e : Exchange) (n : Number) (r : CounterRow) : Prop where
  issue : ∃ stream, e.step.issue? e.reply = some (stream, n)
  row : r ∈ e.after.counters
  counter : r.id = n.counter

namespace Store

variable {s t : Store} {step : Step} {reply : step.Reply} {n : Number} {r : CounterRow}

theorem Replies.exists_draws (h : s.Replies step reply t) (hs : s.Keyed) {stream : Stream}
    (hissue : step.issue? reply = some (stream, n)) :
    ∃ r, Exchange.Draws ⟨s, step, reply, t⟩ n r := by
  obtain ⟨c, hc, rfl⟩ := h.exists_counter hs hissue
  exact ⟨.encode c, ⟨stream, hissue⟩, hc, rfl⟩

/-- The row says all that the number shows. -/
theorem Replies.counter_of_draws (h : s.Replies step reply t) (hs : s.Keyed)
    (hdraws : Exchange.Draws ⟨s, step, reply, t⟩ n r) :
    ∃ c : Counter, r = .encode c ∧ n = c.number := by
  obtain ⟨⟨stream, hissue⟩, hrow, hid⟩ := hdraws
  obtain ⟨c, hc, rfl⟩ := h.exists_counter hs hissue
  exact ⟨c, (h.keyed hs).counter_eq hrow hc hid, rfl⟩

end Store

/-- Counters without a pattern that show their numbers with the same lead and padding. -/
structure Store.CounterRow.PlainAlike (p q : CounterRow) : Prop where
  left : p.pattern = none
  right : q.pattern = none
  lead : p.lead = q.lead
  padding : p.padding = q.padding

theorem Counter.formatted_eq_iff_of_plain {c d : Counter}
    (h : (CounterRow.encode c).PlainAlike (.encode d)) (hstream : c.stream = d.stream) :
    c.number.formatted = d.number.formatted ↔ c.year = d.year ∧ c.value = d.value := by
  have hseries : c.series = d.series := congrArg Stream.series hstream
  have hpadding : c.settings.padding = d.settings.padding := Int.ofNat.inj h.padding
  exact Snapshot.text_eq_iff h.left h.right h.lead hseries hpadding

theorem Number.Precedes.place_ne {m n : Number} (h : m.Precedes n) :
    ¬ (m.year = n.year ∧ m.value = n.value) := by
  rintro ⟨hyear, hvalue⟩
  rcases h with hlt | ⟨-, hlt⟩
  · rw [hyear] at hlt
    exact lt_irrefl_year n.year hlt
  · exact Int.ne_of_lt hlt hvalue

section Run

open Course

variable {ι : Type} [DecidableEq ι] {service : Service} {jobs : ι → Job} {s : Store}
  {σ τ : Course ι fun i => (jobs i).Answer}

/-- Each number is drawn from a row that says what the number shows, and the counter is still
there. -/
structure Showing (σ : Course ι fun i => (jobs i).Answer) : Prop where
  drawn : ∀ i e stream n, (i, e) ∈ σ.trace → e.step.issue? e.reply = some (stream, n) →
    ∃ r, e.Draws n r
  shows : ∀ i e n r, (i, e) ∈ σ.trace → e.Draws n r → ∃ c : Counter, r = .encode c ∧ n = c.number
  persists : ∀ i e n r, (i, e) ∈ σ.trace → e.Draws n r → ∃ q ∈ σ.store.counters, r.Persists q

omit [DecidableEq ι] in
theorem showing_start : Showing (.start s fun i => (jobs i).program service) :=
  { drawn := fun _ _ _ _ h => absurd h List.not_mem_nil
    shows := fun _ _ _ _ h => absurd h List.not_mem_nil
    persists := fun _ _ _ _ h => absurd h List.not_mem_nil }

theorem Showing.move (h : Move σ τ) (hσ : InMotion service jobs s σ) (hshowing : Showing σ) :
    Showing τ := by
  have hτ := hσ.move h
  obtain ⟨hrest, hreplies⟩ := h
  rename_i i step next reply t
  constructor
  case drawn =>
    intro j e stream n he hissue
    rcases List.mem_append.mp he with he | he
    · exact hshowing.drawn j e stream n he hissue
    · cases List.mem_singleton.mp he
      exact hreplies.exists_draws hσ.keyed hissue
  case shows =>
    intro j e n r he hdraws
    rcases List.mem_append.mp he with he | he
    · exact hshowing.shows j e n r he hdraws
    · cases List.mem_singleton.mp he
      exact hreplies.counter_of_draws hσ.keyed hdraws
  case persists =>
    intro j e n r he hdraws
    rcases List.mem_append.mp he with he | he
    · obtain ⟨q, hq, hrq⟩ := hshowing.persists j e n r he hdraws
      have hlast : (i, ⟨σ.store, step, reply, t⟩) ∈ σ.trace ++ [(i, ⟨σ.store, step, reply, t⟩)] :=
        List.mem_append_right _ (List.mem_singleton_self _)
      obtain ⟨p, hp, hqp⟩ := hτ.fares i _ hlast q hq
      exact ⟨p, hp, hrq.trans hqp.persists⟩
    · cases List.mem_singleton.mp he
      exact ⟨r, hdraws.row, .refl r⟩

theorem showing_of_reaches (hs : s.Keyed)
    (h : Reaches (.start s fun i => (jobs i).program service) σ) : Showing σ := by
  induction h with
  | refl => exact showing_start
  | tail hreaches hmove ih => exact ih.move hmove (inMotion_of_reaches hs hreaches)

omit [DecidableEq ι] in
theorem Showing.stream_eq (h : Showing σ) (hσ : σ.store.Keyed) {i j : ι} {e f : Exchange}
    {m n : Number} {p q : CounterRow} (he : (i, e) ∈ σ.trace) (hf : (j, f) ∈ σ.trace)
    (hm : e.Draws m p) (hn : f.Draws n q) (hcounter : m.counter = n.counter) :
    p.stream = q.stream := by
  obtain ⟨p', hp', hpp⟩ := h.persists i e m p he hm
  obtain ⟨q', hq', hqq⟩ := h.persists j f n q hf hn
  -- Both rows have become the one that the counter has by now.
  have hids : p'.id = q'.id := by
    rw [hpp.id, hqq.id, hm.counter, hn.counter, hcounter]
  rw [← hpp.stream, ← hqq.stream, hσ.counter_eq hp' hq' hids]

omit [DecidableEq ι] in
/-- The numbers of one counter increase by year and value from one exchange to a later one. -/
theorem pairwise_precedes (h : ∀ counter, (σ.drawn counter).IsChain Number.Follows) :
    σ.trace.Pairwise fun x y => ∀ m n, (∃ stream, x.2.step.issue? x.2.reply = some (stream, m)) →
      (∃ stream, y.2.step.issue? y.2.reply = some (stream, n)) →
        m.counter = n.counter → m.Precedes n := by
  rw [List.pairwise_iff_forall_sublist]
  rintro x y hxy m n ⟨stream, hm⟩ ⟨stream', hn⟩ hcounter
  have hprecedes : (σ.drawn n.counter).Pairwise Number.Precedes :=
    List.isChain_iff_pairwise.mp ((h n.counter).imp fun _ _ h => h.precedes)
  -- What was drawn is what the trace issued, picked by counter, and keeps its order.
  rw [drawn, List.pairwise_filter, List.pairwise_map, issued, List.pairwise_filterMap,
    List.pairwise_iff_forall_sublist] at hprecedes
  have htaken : ∀ (z : ι × Exchange) (taken : Stream × Number),
      z.2.step.issue? z.2.reply = some taken →
        (z.2.step.issue? z.2.reply).map (z.1, ·) = some (z.1, taken) := by
    intro z taken h
    rw [h, Option.map_some]
  exact hprecedes hxy _ (htaken x _ hm) _ (htaken y _ hn) (decide_eq_true hcounter)
    (decide_eq_true rfl)

/-- Without a pattern the year and the value of a number show, whatever lead, series and padding go
with them; and so no two numbers of one counter look alike. -/
theorem plain_numbers_differ (hs : s.Keyed)
    (h : Reaches (.start s fun i => (jobs i).program service) σ) :
    (∀ x : Snapshot, x.pattern = none → ∀ (y z : Option Int) (v w : Int),
      { x with year := y, value := v }.text = { x with year := z, value := w }.text ↔
        y = z ∧ v = w) ∧
    (∀ i e stream n, (i, e) ∈ σ.trace → e.step.issue? e.reply = some (stream, n) →
      ∃ r, e.Draws n r) ∧
    σ.trace.Pairwise fun x y => ∀ m n p q, x.2.Draws m p → y.2.Draws n q →
      m.counter = n.counter → p.PlainAlike q → m.formatted ≠ n.formatted := by
  have hmotion := inMotion_of_reaches hs h
  have hshowing := showing_of_reaches hs h
  refine ⟨fun x hx y z v w => ?_, hshowing.drawn, ?_⟩
  · exact Snapshot.text_eq_iff (s := { x with year := y, value := v })
      (t := { x with year := z, value := w }) hx hx rfl rfl rfl
  · apply (pairwise_precedes hmotion.follows).imp_of_mem
    intro x y hx hy hprecedes m n p q hm hn hcounter hplain
    have hne := (hprecedes m n hm.issue hn.issue hcounter).place_ne
    -- The series is the last part that the two numbers may differ in.
    have hstream := hshowing.stream_eq hmotion.keyed hx hy hm hn hcounter
    obtain ⟨c, rfl, rfl⟩ := hshowing.shows x.1 x.2 m p hx hm
    obtain ⟨d, rfl, rfl⟩ := hshowing.shows y.1 y.2 n q hy hn
    exact mt (Counter.formatted_eq_iff_of_plain hplain hstream).mp hne

/-- The counter that moves on from 2025 to 2026 shows two numbers that differ. -/
theorem plain_numbers_differ_turned :
    (turned.trace.Pairwise fun x y => ∀ m n p q, x.2.Draws m p → y.2.Draws n q →
      m.counter = n.counter → m.formatted ≠ n.formatted) ∧
    (turned.drawn (.ofNat 2)).map Number.formatted = ["2025/00001", "2026/00001"] := by
  have hplain : ∀ x ∈ turned.trace, ∀ r ∈ x.2.after.counters,
      r.pattern = none ∧ r.lead = none ∧ r.padding = 5 := by decide +kernel
  have hdiffer : _ ∧ _ ∧ turned.trace.Pairwise _ :=
    plain_numbers_differ lawful_empty.toKeyed (reaches_replay _ _)
  constructor
  · apply hdiffer.2.2.imp_of_mem
    intro x y hx hy hdiffer m n p q hm hn hcounter
    obtain ⟨hp, hplead, hppadding⟩ := hplain x hx p hm.row
    obtain ⟨hq, hqlead, hqpadding⟩ := hplain y hy q hn.row
    apply hdiffer m n p q hm hn hcounter
    exact ⟨hp, hq, hplead.trans hqlead.symm, hppadding.trans hqpadding.symm⟩
  · decide +kernel

end Run

end Docket
