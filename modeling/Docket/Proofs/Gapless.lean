import Docket.Proofs.Turns

/-! # Gapless allocation

Calls that take numbers from a stream within one year take consecutive values, whatever the order of
their requests and whichever of them fail: each value follows the one taken before, all come from
one counter, and only calls that succeed take any.
-/

namespace Docket

open Store Issuing Simulation

namespace Request

variable {service : Service} {call : Call} {request : Request} {step : Step}

theorem read_or_allocation_of_asks (hrequest : request.asksNumber = true)
    (h : Asks service call request step) :
    Scene.isWrite step = false ∨ ∃ a, Scene.allocation? step = some a := by
  cases request with
  | generateNumber documentType series =>
    cases step with
    | acquire => exact Or.inl rfl
    | allocate a =>
      exact Or.inr ⟨a, rfl⟩
    | _ => exact h.elim
  | assignNumber id series =>
    cases step with
    | findDocument | acquire => exact Or.inl rfl
    | assignNumber d expected a =>
      exact Or.inr ⟨a, rfl⟩
    | _ => exact h.elim
  | _ => cases hrequest

end Request

/-- A stream of a store in a year: all its rows can be read, and they say which value was taken last
and from which counter, if there is one. -/
def Standing (s : Store) (stream : Stream) (year value : Int) (counter : Option Id) : Prop :=
  ∃ counters, CounterRow.decodeAll (s.streamRows stream) = .ok counters ∧
    lastValue counters year = value ∧ (select? counters year).map Counter.id = counter

namespace Standing

variable {s t u : Store} {a : Allocation} {c : Counter} {stream : Stream} {value : Int}
  {counter : Option Id}

theorem of_advances (h : Standing s a.stream a.year value counter) (hs : s.Lawful)
    (ha : s.Advances a c t) (hu : u.counters = t.counters) :
    c.value = value + 1 ∧ (∀ id, counter = some id → c.id = id) ∧
      Standing u a.stream a.year (value + 1) (some c.id) := by
  obtain ⟨counters, hrows, hvalue, hcounter⟩ := h
  have hnext : c.value = value + 1 := hvalue ▸ ha.value_eq hrows
  refine ⟨hnext, fun id hid => ?_, ?_⟩
  · obtain ⟨d, hd, rfl⟩ := Option.map_eq_some_iff.mp (hcounter.trans hid)
    exact ha.id_eq hrows hd
  · obtain ⟨after, hafter, hselect, hlast⟩ := ha.lastValue_eq hs
    refine ⟨after, ?_, hlast.trans hnext, ?_⟩
    · rw [streamRows_congr hu, hafter]
    · rw [hselect, Option.map_some]

theorem of_advances_of_ne (h : Standing s stream a.year value counter) (hs : s.Lawful)
    (ha : s.Advances a c t) (hu : u.counters = t.counters) (hne : stream ≠ a.stream) :
    Standing u stream a.year value counter := by
  obtain ⟨counters, hrows, hvalue, hcounter⟩ := h
  refine ⟨counters, ?_, hvalue, hcounter⟩
  rw [streamRows_congr hu, ha.streamRows_of_ne hs.toKeyed hne, hrows]

end Standing

namespace Course

variable {ι : Type} {β : ι → Type} {σ : Course ι β} {i : ι} {stream other : Stream} {n : Number}

/-- Numbers that calls have taken from a stream, in the order in which that was stored. -/
def numbersOf (σ : Course ι β) (stream : Stream) : List (ι × Number) :=
  (σ.issued.filter fun p => p.2.1 = stream).map fun p => (p.1, p.2.2)

theorem mem_numbersOf_iff : (i, n) ∈ σ.numbersOf stream ↔ (i, stream, n) ∈ σ.issued := by
  simp only [numbersOf, List.mem_map, List.mem_filter, decide_eq_true_eq]
  constructor
  · rintro ⟨⟨_, _, _⟩, ⟨h, rfl⟩, he⟩
    obtain ⟨rfl, rfl⟩ := Prod.ext_iff.mp he
    exact h
  · exact fun h => ⟨_, ⟨h, rfl⟩, rfl⟩

theorem nodup_numbersOf (h : (σ.issued.map Prod.fst).Nodup) :
    ((σ.numbersOf stream).map Prod.fst).Nodup := by
  rw [numbersOf, List.map_map]
  exact (List.filter_sublist.map Prod.fst).nodup h

variable [DecidableEq ι] {e : Exchange} {p : Program (β i)}

theorem numbersOf_reply_of_none (h : e.step.issue? e.reply = none) :
    (σ.reply i e p).numbersOf stream = σ.numbersOf stream := by
  rw [numbersOf, issued_reply, h, Option.map_none, Option.toList_none, List.append_nil]
  rfl

theorem numbersOf_reply_of_some (h : e.step.issue? e.reply = some (stream, n)) :
    (σ.reply i e p).numbersOf stream = σ.numbersOf stream ++ [(i, n)] := by
  rw [numbersOf, issued_reply, h, List.filter_append, List.map_append]
  simp [numbersOf]

theorem numbersOf_reply_of_ne (h : e.step.issue? e.reply = some (other, n))
    (hne : stream ≠ other) : (σ.reply i e p).numbersOf stream = σ.numbersOf stream := by
  rw [numbersOf, issued_reply, h, List.filter_append, List.map_append]
  simp [numbersOf, hne.symm]

end Course

section Run

open Course

variable {ι : Type} [DecidableEq ι] {service : Service} {jobs : ι → Job} {stream : Stream}
  {year value : Int} {counter : Option Id} {σ τ : Course ι fun i => (jobs i).Answer}

structure Counting (service : Service) (jobs : ι → Job) (stream : Stream) (year value : Int)
    (counter : Option Id) (σ : Course ι fun i => (jobs i).Answer) : Prop
    extends Conducted service jobs σ where
  lawful : σ.store.Lawful
  values : (σ.numbersOf stream).map (fun p => p.2.value)
    = (List.range (σ.numbersOf stream).length).map fun k : Nat => value + 1 + k
  standing : ∃ last, Standing σ.store stream year (value + (σ.numbersOf stream).length) last ∧
    (∀ id, counter = some id → last = some id) ∧
    ∀ p ∈ σ.numbersOf stream, last = some p.2.counter

theorem Counting.move (h : Course.Move σ τ) (hσ : Counting service jobs stream year value counter σ)
    (hjobs : ∀ i, (jobs i).request.asksNumber = true)
    (hyear : ∀ i, (jobs i).call.now.year = year) :
    Counting service jobs stream year value counter τ := by
  have hconducted := hσ.toConducted.move h
  obtain ⟨hrest, hreplies⟩ := h
  rename_i i step next reply t
  have hask := hσ.asks hrest
  have hlawful : t.Lawful := hreplies.lawful hσ.lawful
  obtain ⟨last, hstanding, hlast, hall⟩ := hσ.standing
  have hstep := Request.read_or_allocation_of_asks (hjobs i) hask
  rcases hreplies.none_or_advances hσ.lawful.toKeyed hstep with
    ⟨hissue, rfl⟩ | ⟨a, c, u, hallocation, hadvance, hcounters, hissue⟩
  · refine ⟨hconducted, hlawful, ?_, last, ?_, hlast, ?_⟩ <;> rw [numbersOf_reply_of_none hissue]
    · exact hσ.values
    · exact hstanding
    · exact hall
  · obtain rfl := (Request.year_of_asks hask hallocation).trans (hyear i)
    by_cases hs : stream = a.stream
    · subst hs
      obtain ⟨hvalue, hid, hafter⟩ := hstanding.of_advances hσ.lawful hadvance hcounters
      refine ⟨hconducted, hlawful, ?_, some c.id, ?_, fun id h => ?_, fun p hp => ?_⟩
      · rw [numbersOf_reply_of_some hissue, List.map_append, hσ.values, List.length_append,
          List.length_singleton, List.range_succ, List.map_append, List.map_singleton,
          List.map_singleton]
        refine congrArg (_ ++ [·]) (hvalue.trans ?_)
        omega
      · rw [numbersOf_reply_of_some hissue, List.length_append, List.length_singleton,
          Int.natCast_succ, ← Int.add_assoc]
        exact hafter
      · exact congrArg some (hid id (hlast id h))
      · rw [numbersOf_reply_of_some hissue] at hp
        rcases List.mem_append.mp hp with hp | hp
        · exact congrArg some (hid _ (hall p hp))
        · rw [List.mem_singleton.mp hp]
          rfl
    · have hafter := hstanding.of_advances_of_ne hσ.lawful hadvance hcounters hs
      refine ⟨hconducted, hlawful, ?_, last, ?_, hlast, ?_⟩ <;> rw [numbersOf_reply_of_ne hissue hs]
      · exact hσ.values
      · exact hafter
      · exact hall

theorem counting_of_reaches (h : Reaches σ τ)
    (hσ : Counting service jobs stream year value counter σ)
    (hjobs : ∀ i, (jobs i).request.asksNumber = true)
    (hyear : ∀ i, (jobs i).call.now.year = year) :
    Counting service jobs stream year value counter τ := by
  induction h with
  | refl => exact hσ
  | tail _ h ih => exact ih.move h hjobs hyear

/-- What calls for numbers come to in a stream, given its last value and its counter, if any, from
before. -/
structure Gapless (service : Service) (jobs : ι → Job) (stream : Stream) (year value : Int)
    (counter : Option Id) (σ : Course ι fun i => (jobs i).Answer) : Prop where
  /-- The values taken follow the last one without a gap, in the order in which that was stored. -/
  values : (σ.numbersOf stream).map (fun p => p.2.value)
    = (List.range (σ.numbersOf stream).length).map fun k : Nat => value + 1 + k
  sameCounter : ∀ p ∈ σ.numbersOf stream, ∀ q ∈ σ.numbersOf stream, p.2.counter = q.2.counter
  selected : ∀ p ∈ σ.numbersOf stream, ∀ id, counter = some id → p.2.counter = id
  /-- No call takes two of them. -/
  callers : ((σ.numbersOf stream).map Prod.fst).Nodup
  /-- Who has taken a number answers it. -/
  answered : ∀ i n, (i, n) ∈ σ.numbersOf stream → ∃ outcome, σ.rest i = .done (.ok outcome) ∧
    Service.Hands service (jobs i).call (jobs i).request outcome stream n
  /-- Who succeeds has taken the number of the answer. -/
  handed : ∀ i outcome, σ.rest i = .done (.ok outcome) → ∃ taken n, (i, taken, n) ∈ σ.issued ∧
    Service.Hands service (jobs i).call (jobs i).request outcome taken n
  /-- Who fails has taken none. -/
  failed : ∀ i f, σ.rest i = .done (.error f) → ∀ taken n, (i, taken, n) ∉ σ.issued
  /-- The store goes on from the last value taken. -/
  stored : ∃ counters, CounterRow.decodeAll (σ.store.streamRows stream) = .ok counters ∧
    lastValue counters year = value + (σ.numbersOf stream).length

/-- Calls for the numbers of any streams in one year take those of each stream without a gap,
however their requests, locks and writes are interleaved and whatever is refused. -/
theorem gapless_of_reaches {s : Store} {counters : List Counter}
    {m : Machine ι fun i => (jobs i).Answer} (hs : s.Lawful)
    (hrows : CounterRow.decodeAll (s.streamRows stream) = .ok counters)
    (hjobs : ∀ i, (jobs i).request.asksNumber = true)
    (hyear : ∀ i, (jobs i).call.now.year = year)
    (hm : Machine.Reaches (.start s fun i => (jobs i).program service) m) :
    Gapless service jobs stream year (lastValue counters year)
      ((select? counters year).map Counter.id) m.toCourse := by
  have hreach := Machine.reaches_start hm
  have hreported := reported_of_reaches hreach
  have hstart : Counting service jobs stream year (lastValue counters year)
      ((select? counters year).map Counter.id)
      (.start s fun i => (jobs i).program service) :=
    { conducted_start s with
      lawful := hs
      values := rfl
      standing := ⟨_, ⟨counters, hrows, (Int.add_zero _).symm, rfl⟩, fun _ h => h, nofun⟩ }
  have hend := counting_of_reaches hreach hstart hjobs hyear
  obtain ⟨last, ⟨after, hafter, hvalue, -⟩, hlast, hall⟩ := hend.standing
  refine
    { values := hend.values
      sameCounter := fun p hp q hq => ?_
      selected := fun p hp id hid => ?_
      callers := nodup_numbersOf (nodup_issuers hreported)
      answered := fun i n hn => hreported.answered (mem_numbersOf_iff.mp hn)
      handed := fun i outcome hdone => hreported.handed (hjobs i) hdone
      failed := fun i f hdone => hreported.failed hdone
      stored := ⟨after, hafter, hvalue⟩ }
  · exact Option.some.inj ((hall p hp).symm.trans (hall q hq))
  · exact Option.some.inj ((hall p hp).symm.trans (hlast id hid))

/-- Two calls for numbers of a stream, and two for the number of one draft. -/
def contending : Fin 4 → Job
  | 0 => contestedJob (.generateNumber firstStream.documentType firstStream.series)
  | 1 => contestedJob (.generateNumber firstStream.documentType firstStream.series)
  | 2 => contestedJob (.assignNumber contestedDraft.id firstStream.series)
  | 3 => contestedJob (.assignNumber contestedDraft.id firstStream.series)

/-- Both calls for the draft have loaded it before any number is taken. The calls wait for the lock
of the stream and for the write that another one has begun. -/
def contended : Machine (Fin 4) fun i => (contending i).Answer :=
  (Machine.start contested fun i => (contending i).program {}).replay
    (turnsOf 4 [2, 3, 0, 0, 1, 2, 0, 2, 2, 3, 1, 2, 3, 3, 1, 3, 1, 1, 1])

/-- A counter of the year before moves on, and three calls take its numbers in turn. The other one
finds the draft changed and takes none. -/
theorem gapless_contending :
    Gapless {} contending firstStream 2025 0 (some (.ofNat 5)) contended.toCourse ∧
      (contended.numbersOf firstStream).map (fun p => (p.1, p.2.value))
        = [(0, 1), (2, 2), (1, 3)] ∧
      contended.toCourse.failure? 3
        = some (.error (.concurrentModification contestedDraft.id)) := by
  have hjobs : ∀ i, (contending i).request.asksNumber = true := by decide
  have hyear : ∀ i, (contending i).call.now.year = 2025 := by decide +kernel
  refine ⟨?_, by decide +kernel, by decide +kernel⟩
  exact gapless_of_reaches lawful_contested rows_contested hjobs hyear (Machine.reaches_replay _ _)

end Run

end Docket
