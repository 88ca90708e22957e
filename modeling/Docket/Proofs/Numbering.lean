import Docket.Proofs.Returns

/-! # The numbers of a stream with one counter

As long as the clock does not go back, a stream with one counter, or none at first, has one counter
for good. Its numbers can then be told from the years in which they were taken: they go on from
year to year, or begin anew with each year.
-/

namespace Docket

open Store Issuing Simulation

section Places

variable {resets : Bool} {place : Option Int × Int} {years : List Int} {year : Int}

/-- The year and the value of a counter after a number of a year was taken from it. -/
def placeIn (resets : Bool) (place : Option Int × Int) (year : Int) : Option Int × Int :=
  if resets = true ∧ place.1 ≠ some year then (some year, 1) else (place.1, place.2 + 1)

/-- The year and the value of a counter after numbers of some years were taken from it. -/
def placeAfter (resets : Bool) (place : Option Int × Int) (years : List Int) : Option Int × Int :=
  years.foldl (placeIn resets) place

theorem placeAfter_concat :
    placeAfter resets place (years ++ [year])
      = placeIn resets (placeAfter resets place years) year := by
  rw [placeAfter, List.foldl_concat, placeAfter]

theorem placeAfter_of_not_resets :
    placeAfter false place years = (place.1, place.2 + years.length) := by
  induction years using List.reverseRecOn with
  | nil => exact Prod.ext rfl (Int.add_zero _).symm
  | append_singleton years year ih =>
    rw [placeAfter_concat, ih, placeIn, if_neg (by simp), List.length_append,
      List.length_singleton, Int.natCast_succ, Int.add_assoc]

theorem placeAfter_of_resets (hclock : (years ++ [year]).Pairwise (· ≤ ·))
    (hstart : ∀ y ∈ place.1, ∀ x ∈ years ++ [year], y ≤ x) :
    placeAfter true place (years ++ [year])
      = (some year, (years ++ [year]).count year + if place.1 = some year then place.2 else 0) := by
  induction years using List.reverseRecOn generalizing year with
  | nil =>
    by_cases hyear : place.1 = some year
    · simp [placeAfter, placeIn, hyear, Int.add_comm]
    · simp [placeAfter, placeIn, hyear]
  | append_singleton years last ih =>
    obtain ⟨hbefore, -, hle⟩ := List.pairwise_append.mp hclock
    have hlast : last ≤ year := hle last (by simp) year (by simp)
    rw [placeAfter_concat, ih hbefore fun y hy x hx => hstart y hy x (List.mem_append_left _ hx)]
    by_cases hsame : last = year
    · subst hsame
      rw [placeIn, if_neg (by simp), List.count_append]
      simp
      omega
    · -- The first number of a year: no earlier one has the year, nor has the counter.
      have hnone : (years ++ [last]).count year = 0 := by
        rw [List.count_eq_zero]
        intro hmem
        rcases List.mem_append.mp hmem with hmem | hmem
        · have := (List.pairwise_append.mp hbefore).2.2 year hmem last (by simp)
          omega
        · exact hsame (List.mem_singleton.mp hmem).symm
      have hplace : place.1 ≠ some year := by
        intro hyear
        have := hstart year hyear last (by simp)
        omega
      rw [placeIn, if_pos (by simpa using hsame), List.count_append, hnone, if_neg hplace]
      simp

theorem year_placeAfter (resets : Bool) (place : Option Int × Int) (years : List Int) :
    (placeAfter resets place years).1 = place.1 ∨
      ∃ y ∈ years, (placeAfter resets place years).1 = some y := by
  induction years using List.reverseRecOn with
  | nil => exact Or.inl rfl
  | append_singleton years year ih =>
    rw [placeAfter_concat, placeIn]
    split
    · exact Or.inr ⟨year, by simp, rfl⟩
    · rcases ih with hfirst | ⟨y, hy, hyear⟩
      · exact Or.inl hfirst
      · exact Or.inr ⟨y, List.mem_append_left _ hy, hyear⟩

end Places

theorem Issuing.Allocation.place_firstCounter (a : Allocation) (resets : Bool) :
    (a.firstCounter.year, a.firstCounter.value) = placeIn resets (some a.year, 0) a.year := by
  rw [placeIn, if_neg fun h => h.2 rfl]
  rfl

theorem Issuing.Allocation.place_next (a : Allocation) (c : Counter) :
    ((a.next c).year, (a.next c).value) = placeIn c.settings.resets (c.year, c.value) a.year := by
  by_cases h : a.Rolls c
  · rw [next_of_rolls h]
    exact (if_pos h).symm
  · rw [next_of_not_rolls h]
    exact (if_neg h).symm

theorem Issuing.Allocation.settings_next (a : Allocation) (c : Counter) :
    (a.next c).settings = c.settings := by
  by_cases h : a.Rolls c
  · rw [next_of_rolls h]
  · rw [next_of_not_rolls h]

theorem Issuing.select?_singleton {c : Counter} {year : Int} (h : isReached year c = true) :
    select? [c] year = some c := by
  cases hselect : select? [c] year with
  | none => cases (select?_eq_none_iff.mp hselect c (List.mem_singleton_self c)).symm.trans h
  | some d => rw [List.mem_singleton.mp (mem_of_select? hselect)]

namespace Store

variable {s t : Store} {a : Allocation} {c : Counter} {r : CounterRow} {stream : Stream}

theorem Advances.of_nil (h : s.Advances a c t) (hs : s.Keyed) (hrows : s.streamRows a.stream = []) :
    c = a.firstCounter ∧ t.streamRows a.stream = [.encode c] := by
  have hone : t.streamRows a.stream = [.encode c] := by
    refine List.perm_singleton.mp ?_
    rw [List.perm_ext_iff_of_nodup ((h.keyed hs).nodup_streamRows _) (List.nodup_singleton _)]
    intro q
    rw [h.mem_streamRows_iff rfl, hrows]
    simp
  refine ⟨?_, hone⟩
  cases h with
  | first => rfl
  | next rows selected =>
    rw [hrows] at rows
    obtain rfl := Except.ok.inj rows
    exact absurd (mem_of_select? selected) List.not_mem_nil

theorem Advances.of_singleton (h : s.Advances a c t) (hs : s.Keyed)
    (hrows : s.streamRows a.stream = [r]) (hreached : ∀ y ∈ r.year, y ≤ a.year) :
    (∃ d, r = .encode d ∧ c = a.next d) ∧ t.streamRows a.stream = [.encode c] := by
  have hnext : ∃ d, r = .encode d ∧ c = a.next d := by
    have hsingle : ∀ {counters : List Counter},
        CounterRow.decodeAll (s.streamRows a.stream) = .ok counters →
          ∃ d, counters = [d] ∧ r = .encode d := by
      intro counters hdecode
      obtain ⟨he, -⟩ := CounterRow.decodeAll_eq_ok_iff.mp hdecode
      rw [hrows] at he
      obtain ⟨d, rfl, hd⟩ := List.map_eq_singleton_iff.mp he.symm
      exact ⟨d, rfl, hd.symm⟩
    have hselect : ∀ d, r = .encode d → select? [d] a.year = some d := by
      rintro d rfl
      exact select?_singleton (isReached_iff.mpr hreached)
    cases h with
    | first rows selected =>
      obtain ⟨d, rfl, hd⟩ := hsingle rows
      cases selected.symm.trans (hselect d hd)
    | next rows selected =>
      obtain ⟨d, rfl, hd⟩ := hsingle rows
      obtain rfl := Option.some.inj (selected.symm.trans (hselect d hd))
      exact ⟨_, hd, rfl⟩
  refine ⟨hnext, List.perm_singleton.mp ?_⟩
  obtain ⟨d, rfl, rfl⟩ := hnext
  rw [List.perm_ext_iff_of_nodup ((h.keyed hs).nodup_streamRows _) (List.nodup_singleton _)]
  intro q
  rw [h.mem_streamRows_iff rfl, hrows]
  simp only [List.mem_singleton, and_true, Allocation.next_id, or_iff_left_iff_imp, and_imp]
  rintro rfl hne
  exact absurd rfl hne

end Store

section Taken

variable {defaults : CounterDefaults} {rows₀ rows : List CounterRow} {readings : List Int}
  {year : Option Int} {value : Int} {resets : Bool}

/-- The year and the value from which a stream of at most one counter goes on, given the years in
which numbers are taken from it, and whether it begins anew with each year. -/
inductive Opens (defaults : CounterDefaults) :
    List CounterRow → List Int → Option Int → Int → Bool → Prop
  | counter {r : CounterRow} {readings : List Int}
      (reached : ∀ y ∈ r.year, ∀ first ∈ readings.head?, y ≤ first) :
      Opens defaults [r] readings r.year r.value r.resets
  | empty {year : Option Int} {readings : List Int} (first : ∀ y ∈ readings.head?, year = some y) :
      Opens defaults [] readings year 0 defaults.resets

theorem Opens.of_append {later : List Int}
    (h : Opens defaults rows₀ (readings ++ later) year value resets) :
    Opens defaults rows₀ readings year value resets := by
  have hhead : ∀ y ∈ readings.head?, y ∈ (readings ++ later).head? := by
    cases readings with
    | nil => exact nofun
    | cons => exact fun _ h => h
  cases h with
  | counter reached => exact .counter fun y hy first hfirst => reached y hy first (hhead _ hfirst)
  | empty first => exact .empty fun y hy => first y (hhead y hy)

theorem Opens.le (h : Opens defaults rows₀ readings year value resets)
    (hclock : readings.Pairwise (· ≤ ·)) : ∀ y ∈ year, ∀ x ∈ readings, y ≤ x := by
  cases readings with
  | nil => exact fun _ _ _ hx => absurd hx List.not_mem_nil
  | cons first later =>
    have hfirst : ∀ y ∈ year, y ≤ first := by
      intro y hy
      cases h with
      | counter reached => exact reached y hy first rfl
      | empty hempty =>
        obtain rfl := Option.some.inj ((hempty first rfl).symm.trans hy)
        exact Int.le_refl _
    intro y hy x hx
    rcases List.mem_cons.mp hx with rfl | hx
    · exact hfirst y hy
    · exact Int.le_trans (hfirst y hy) ((List.pairwise_cons.mp hclock).1 x hx)

/-- The numbers of a stream and its one counter, which is added with the first number unless it was
there before. -/
structure Single (rows₀ : List CounterRow) (place : Option Int × Int) (resets : Bool)
    (rows : List CounterRow) (taken : List (Int × Number)) : Prop where
  places : ∀ (k : Nat) (x : Int × Number), taken[k]? = some x →
    x.2.place = placeAfter resets place ((taken.map Prod.fst).take (k + 1))
  counter : (rows₀ = [] ∧ rows = [] ∧ taken = []) ∨
    ∃ r, rows = [r] ∧ r.resets = resets ∧
      (r.year, r.value) = placeAfter resets place (taken.map Prod.fst) ∧
      (∀ x ∈ taken, x.2.counter = r.id) ∧ ∀ q ∈ rows₀, q.id = r.id

theorem Opens.single (h : Opens defaults rows₀ [] year value resets) :
    Single rows₀ (year, value) resets rows₀ [] := by
  refine ⟨nofun, ?_⟩
  cases h with
  | counter => exact Or.inr ⟨_, rfl, rfl, rfl, nofun, fun _ hq => List.mem_singleton.mp hq ▸ rfl⟩
  | empty => exact Or.inl ⟨rfl, rfl, rfl⟩

variable {s t : Store} {a : Allocation} {c : Counter} {taken : List (Int × Number)}

/-- How an allocation moves the counter of a stream that has at most one. -/
theorem Single.exists_counter (h : Single rows₀ (year, value) resets (s.streamRows a.stream) taken)
    (hs : s.Lawful) (ha : s.Advances a c t)
    (hopens : Opens a.defaults rows₀ (taken.map Prod.fst ++ [a.year]) year value resets)
    (hclock : (taken.map Prod.fst ++ [a.year]).Pairwise (· ≤ ·)) :
    t.streamRows a.stream = [.encode c] ∧ c.settings.resets = resets ∧
      (c.year, c.value) = placeAfter resets (year, value) (taken.map Prod.fst ++ [a.year]) ∧
      (∀ x ∈ taken, x.2.counter = c.id) ∧ ∀ q ∈ rows₀, q.id = c.id := by
  rcases h.counter with ⟨rfl, hrows, rfl⟩ | ⟨r, hrows, rfl, hplace, hcounter, hfirst⟩
  · obtain ⟨rfl, hone⟩ := ha.of_nil hs.toKeyed hrows
    cases hopens with
    | empty first =>
      obtain rfl := first a.year rfl
      refine ⟨hone, rfl, a.place_firstCounter _, ?_, ?_⟩
      · exact fun _ hx => absurd hx List.not_mem_nil
      · exact fun _ hq => absurd hq List.not_mem_nil
  · have hreached : ∀ y ∈ r.year, y ≤ a.year := by
      intro y hy
      have hle := hopens.le hclock
      rcases year_placeAfter r.resets (year, value) (taken.map Prod.fst) with hyear | ⟨z, hz, hyear⟩
      · refine hle y ?_ a.year (List.mem_append_right _ (List.mem_singleton_self _))
        exact hyear.symm.trans ((congrArg Prod.fst hplace).symm.trans hy)
      · obtain rfl : z = y :=
          Option.some.inj (hyear.symm.trans ((congrArg Prod.fst hplace).symm.trans hy))
        exact (List.pairwise_append.mp hclock).2.2 z hz a.year (List.mem_singleton_self _)
    obtain ⟨⟨d, rfl, rfl⟩, hone⟩ := ha.of_singleton hs.toKeyed hrows hreached
    refine ⟨hone, congrArg CounterSettings.resets (a.settings_next d), ?_, ?_, ?_⟩
    · rw [placeAfter_concat, ← hplace]
      exact a.place_next d
    · exact fun x hx => (hcounter x hx).trans (Allocation.next_id a d).symm
    · exact fun q hq => (hfirst q hq).trans (Allocation.next_id a d).symm

theorem Single.of_advances (h : Single rows₀ (year, value) resets (s.streamRows a.stream) taken)
    (hs : s.Lawful) (ha : s.Advances a c t)
    (hopens : Opens a.defaults rows₀ (taken.map Prod.fst ++ [a.year]) year value resets)
    (hclock : (taken.map Prod.fst ++ [a.year]).Pairwise (· ≤ ·)) :
    Single rows₀ (year, value) resets (t.streamRows a.stream)
      (taken ++ [(a.year, c.number)]) := by
  obtain ⟨hone, hresets, hplace, hcounter, hfirst⟩ := h.exists_counter hs ha hopens hclock
  constructor
  case places =>
    intro k x hx
    rw [List.map_append, List.map_singleton]
    rcases Nat.lt_or_ge k taken.length with hk | hk
    · rw [List.getElem?_append_left hk] at hx
      rw [h.places k x hx, List.take_append_of_le_length (by simp; omega)]
    · obtain rfl : k = taken.length := by
        have := (List.getElem?_eq_some_iff.mp hx).1
        simp at this
        omega
      rw [List.getElem?_concat_length, Option.some.injEq] at hx
      subst hx
      rw [List.take_of_length_le (by simp)]
      exact hplace
  case counter =>
    refine Or.inr ⟨.encode c, hone, hresets, ?_, ?_, hfirst⟩
    · rw [List.map_append, List.map_singleton]
      exact hplace
    · intro x hx
      rcases List.mem_append.mp hx with hx | hx
      · exact hcounter x hx
      · rw [List.mem_singleton.mp hx]
        rfl

end Taken

section Run

open Course

variable {ι : Type} {service : Service} {jobs : ι → Job} {s : Store} {stream : Stream}
  {σ : Course ι fun i => (jobs i).Answer} {year : Option Int} {value : Int} {resets : Bool}

/-- What the numbers of a stream with one counter are, in the order in which they are taken, and
whom they come from. -/
structure Numbering (service : Service) (jobs : ι → Job) (s : Store) (stream : Stream)
    (year : Option Int) (value : Int) (resets : Bool) (σ : Course ι fun i => (jobs i).Answer) :
    Prop where
  /-- Without resets the year stays, and the values go on from the first. -/
  lasting : resets = false → ∀ (k : Nat) (x : Int × Number), (datedNumbers σ stream)[k]? = some x →
    x.2.year = year ∧ x.2.value = value + (k + 1)
  /-- With resets each year that is read counts its own numbers, the first year from the first
  value. -/
  resetting : resets = true → ∀ (k : Nat) (x : Int × Number),
    (datedNumbers σ stream)[k]? = some x → x.2.year = some x.1 ∧
      x.2.value = (((datedNumbers σ stream).map Prod.fst).take (k + 1)).count x.1
        + if year = some x.1 then value else 0
  sameCounter : ∀ x ∈ datedNumbers σ stream, ∀ y ∈ datedNumbers σ stream,
    x.2.counter = y.2.counter
  firstCounter : ∀ r ∈ s.streamRows stream, ∀ x ∈ datedNumbers σ stream, x.2.counter = r.id
  /-- Who has taken a number answers it. -/
  answered : ∀ i n, (i, n) ∈ σ.numbersOf stream → ∃ outcome, σ.rest i = .done (.ok outcome) ∧
    Service.Hands service (jobs i).call (jobs i).request outcome stream n

variable [DecidableEq ι]

theorem single_of_reaches (hs : s.Lawful) (hjobs : ∀ i, (jobs i).request.configures = false)
    (hclock : ((datedNumbers σ stream).map Prod.fst).Pairwise (· ≤ ·))
    (hopens : Opens service.defaults (s.streamRows stream) ((datedNumbers σ stream).map Prod.fst)
      year value resets)
    (h : Reaches (.start s fun i => (jobs i).program service) σ) :
    Single (s.streamRows stream) (year, value) resets (σ.store.streamRows stream)
      (datedNumbers σ stream) := by
  refine (accords_of_reaches (P := fun rows taken =>
    Opens service.defaults (s.streamRows stream) (taken.map Prod.fst) year value resets →
      (taken.map Prod.fst).Pairwise (· ≤ ·) →
        Single (s.streamRows stream) (year, value) resets rows taken)
    hs ?_ ?_ hjobs h).holds hopens hclock
  · exact fun hopens _ => hopens.single
  · rintro t u a c taken ht ha rfl hdefaults ih hopens hclock
    rw [List.map_append, List.map_singleton] at hopens hclock
    have hsingle := ih hopens.of_append (List.pairwise_append.mp hclock).1
    rw [← hdefaults] at hopens
    exact hsingle.of_advances ht ha hopens hclock

/-- The numbers taken from a stream with one counter, or none at first, by calls of clocks that do
not go back. -/
theorem numbering_of_reaches (hs : s.Lawful) (hjobs : ∀ i, (jobs i).request.configures = false)
    (h : Reaches (.start s fun i => (jobs i).program service) σ)
    (hclock : ((datedNumbers σ stream).map Prod.fst).Pairwise (· ≤ ·))
    (hopens : Opens service.defaults (s.streamRows stream) ((datedNumbers σ stream).map Prod.fst)
      year value resets) :
    Numbering service jobs s stream year value resets σ := by
  have hsingle := single_of_reaches hs hjobs hclock hopens h
  constructor
  case lasting =>
    rintro rfl k x hx
    obtain ⟨hk, -⟩ := List.getElem?_eq_some_iff.mp hx
    have hplace := hsingle.places k x hx
    rw [placeAfter_of_not_resets, List.length_take_of_le (by simp; omega)] at hplace
    exact Prod.ext_iff.mp hplace
  case resetting =>
    rintro rfl k x hx
    have hread : ((datedNumbers σ stream).map Prod.fst)[k]? = some x.1 := by
      rw [List.getElem?_map, hx, Option.map_some]
    have hplace := hsingle.places k x hx
    have htake : ((datedNumbers σ stream).map Prod.fst).take (k + 1)
        = ((datedNumbers σ stream).map Prod.fst).take k ++ [x.1] := by
      rw [List.take_add_one, hread, Option.toList_some]
    have hsub := List.take_sublist (k + 1) ((datedNumbers σ stream).map Prod.fst)
    rw [htake] at hplace hsub ⊢
    rw [placeAfter_of_resets (hclock.sublist hsub) fun y hy z hz =>
      hopens.le hclock y hy z (hsub.subset hz)] at hplace
    exact Prod.ext_iff.mp hplace
  case sameCounter =>
    intro x hx y hy
    rcases hsingle.counter with ⟨-, -, hnone⟩ | ⟨r, -, -, -, hcounter, -⟩
    · exact absurd (hnone ▸ hx) List.not_mem_nil
    · exact (hcounter x hx).trans (hcounter y hy).symm
  case firstCounter =>
    intro r hr x hx
    rcases hsingle.counter with ⟨-, -, hnone⟩ | ⟨q, -, -, -, hcounter, hfirst⟩
    · exact absurd (hnone ▸ hx) List.not_mem_nil
    · exact (hcounter x hx).trans (hfirst r hr).symm
  case answered =>
    intro i n hn
    exact (reported_of_reaches h).answered (mem_numbersOf_iff.mp hn)

def carriedCounter : Counter :=
  { id := .ofNat 5
    tenant := firstStream.tenant
    documentType := firstStream.documentType
    series := firstStream.series
    year := some 2025
    value := 7
    settings := {}
    created := ⟨default, ""⟩
    updated := ⟨default, ""⟩
    retired := none }

/-- Two calls of the year 2025, and one of 2026. -/
def newYear : Fin 3 → Job
  | 0 => numberAt 1750000000 (.ofNat 2)
  | 1 => numberAt 1750000000 (.ofNat 3)
  | 2 => numberAt 1780000000 (.ofNat 4)

/-- The calls run one after another, with a counter that is there before. -/
def carried : Course (Fin 3) fun i => (newYear i).Answer :=
  (start { counters := [.encode carriedCounter] } fun i => (newYear i).program {}).replay
    (inTurn 3 2)

/-- A counter of 2025 goes on from its value, and begins anew in 2026. -/
theorem numbering_carried :
    Numbering {} newYear { counters := [.encode carriedCounter] } firstStream (some 2025) 7 true
        carried ∧
      ((datedNumbers carried firstStream).map fun x => x.2.place)
        = [(some 2025, 8), (some 2025, 9), (some 2026, 1)] := by
  have hrows : ({ counters := [.encode carriedCounter] } : Store).streamRows firstStream
      = [.encode carriedCounter] :=
    rfl
  have hreadings : (datedNumbers carried firstStream).map Prod.fst = [2025, 2025, 2026] := by
    decide +kernel
  have hopens : Opens {} [.encode carriedCounter] [2025, 2025, 2026] (some 2025) 7 true :=
    .counter (by decide)
  refine ⟨?_, by decide +kernel⟩
  refine numbering_of_reaches ⟨⟨by decide, by decide⟩, by decide⟩ (by decide) (reaches_replay _ _)
    ?_ ?_
  · rw [hreadings]
    decide
  · rw [hrows, hreadings]
    exact hopens

end Run

end Docket
