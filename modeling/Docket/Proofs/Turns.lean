import Docket.Proofs.Numbers

/-! # Turns in a stream

A call that is given the lock of a stream keeps it until the call ends, so calls that take numbers
from a stream take turns, and each of them reads the clock in its turn. If the clock never goes back
then neither do the years of the stream's numbers.
-/

namespace Docket

open Store Simulation

/-- The stream whose lock is given with a reply. -/
def Step.given? (step : Step) (reply : step.Reply) : Option Stream :=
  if reply.isOk then Machine.wanted? step else none

namespace Exchange

def given? (e : Exchange) : Option Stream := e.step.given? e.reply

variable {s t : Store} {step : Step}

theorem given?_of_write (h : Scene.isWrite step = true) (reply : step.Reply) :
    (Exchange.mk s step reply t).given? = none := by
  cases step with
  | acquire => cases h
  | _ => exact ite_self none

theorem given?_perform :
    (Exchange.mk s step (s.perform step).1 t).given? = Machine.wanted? step := by
  unfold given? Step.given?
  cases step with
  | acquire => rfl
  | _ => exact ite_self none

end Exchange

theorem Request.Prompts.locked {service : Service} {call : Call} {tenant : Id} {request : Request}
    {told : List Response} {step : Step} (h : request.Prompts service call tenant told step)
    {a : Issuing.Allocation} (ha : a ∈ Scene.allocation? step) :
    ∃ r ∈ told, r.step.given? r.reply = some a.stream := by
  cases h with
  | allocate =>
    obtain rfl := Option.some.inj ha
    exact ⟨_, List.mem_cons_self, rfl⟩
  | assign =>
    obtain rfl := Option.some.inj ha
    exact ⟨_, List.mem_cons_of_mem _ List.mem_cons_self, rfl⟩
  | opening => cases request <;> cases ha
  | _ => cases ha

section Turns

variable {ι : Type} {β : ι → Type} [DecidableEq ι]

namespace Course

variable {σ : Course ι β} {i j : ι} {e : Exchange} {p : Program (β i)}

def Active (σ : Course ι β) (i : ι) : Prop := ∃ step next, σ.rest i = .request step next

theorem Active.of_reply (h : (σ.reply i e p).Active j) (hi : σ.Active i) : σ.Active j := by
  by_cases hj : j = i
  · exact hj ▸ hi
  · obtain ⟨step, next, h⟩ := h
    rw [reply_rest_of_ne hj] at h
    exact ⟨step, next, h⟩

/-- Calls under way hold the locks that they were given. -/
def Holds (σ : Course ι β) (holder : Stream → Option ι) : Prop :=
  ∀ i e stream, (i, e) ∈ σ.trace → e.given? = some stream → σ.Active i → holder stream = some i

/-- No other call takes a number from a stream while a call has its lock. -/
def TakesTurns (σ : Course ι β) : Prop :=
  ∀ before i e after stream, σ.trace = before ++ (i, e) :: after → e.given? = some stream →
    σ.Active i → ∀ j x n, (j, x) ∈ after → x.step.issue? x.reply = some (stream, n) → j = i

end Course

namespace Machine

open Course

variable {m n : Machine ι β} {i j : ι} {stream : Stream} {given : Option Stream}
  {p : Program (β i)} {e : Exchange}

theorem locks_of_ne (h : m.holder stream = some j) (hj : j ≠ i) (hgiven : given ≠ some stream) :
    m.locks i given p stream = some j := by
  have hother : ¬ (m.holder stream = some i ∨ given = some stream) := by
    rintro (hi | hi)
    · exact hj (Option.some.inj (h.symm.trans hi))
    · exact hgiven hi
  exact (if_neg hother).trans h

theorem locks_self {step : Step} {next : step.Reply → Program (β i)}
    (h : m.holder stream = some i ∨ given = some stream) :
    m.locks i given (.request step next) stream = some i := if_pos h

theorem holds_reply (hm : m.Holds m.holder) (hi : m.Active i)
    (hfree : ∀ stream, e.given? = some stream → m.holder stream = none) :
    (m.reply i e p).Holds (m.locks i e.given? p) := by
  intro j x stream hx hgiven hactive
  have hold := hactive.of_reply hi
  obtain ⟨step, next, hrest⟩ := hactive
  by_cases hj : j = i
  · subst hj
    rw [reply_rest_self] at hrest
    rw [hrest]
    refine locks_self ?_
    rcases List.mem_append.mp hx with hx | hx
    · exact Or.inl (hm j x stream hx hgiven hold)
    · obtain ⟨-, rfl⟩ := Prod.ext_iff.mp (List.mem_singleton.mp hx)
      exact Or.inr hgiven
  · rcases List.mem_append.mp hx with hx | hx
    · have hholder := hm j x stream hx hgiven hold
      refine locks_of_ne hholder hj fun h => ?_
      cases (hfree stream h).symm.trans hholder
    · exact absurd (Prod.ext_iff.mp (List.mem_singleton.mp hx)).1 hj

structure Ordered (m : Machine ι β) : Prop where
  /-- A write under way is the next request of its call. -/
  writes : ∀ i s, m.writing = some (i, s) →
    ∃ step next, m.rest i = .request step next ∧ Scene.isWrite step = true
  holds : m.Holds m.holder

theorem Move.ordered (h : Move m n) (hm : m.Ordered) : n.Ordered := by
  cases h with
  | @read i step next rest reads free =>
    refine ⟨fun j s hs => ?_, ?_⟩
    · obtain ⟨step', next', hrest, hwrites⟩ := hm.writes j s hs
      have hj : j ≠ i := by
        rintro rfl
        cases rest.symm.trans hrest
        cases reads.symm.trans hwrites
      exact ⟨step', next', (reply_rest_of_ne hj).trans hrest, hwrites⟩
    · have hholds := holds_reply (p := next (m.store.perform step).1)
        (e := ⟨m.store, step, (m.store.perform step).1, m.store⟩) hm.holds ⟨step, next, rest⟩
        fun stream h => free stream (Exchange.given?_perform.symm.trans h)
      rwa [Exchange.given?_perform] at hholds
  | @begin i step next rest writes idle =>
    refine ⟨fun j s hs => ?_, hm.holds⟩
    obtain ⟨rfl, -⟩ := Prod.ext_iff.mp (Option.some.inj hs)
    exact ⟨step, next, rest, writes⟩
  | @commit i step next s rest writing =>
    refine ⟨fun _ _ hs => absurd hs nofun, ?_⟩
    obtain ⟨step', next', hrest, hwrites⟩ := hm.writes i s writing
    cases rest.symm.trans hrest
    have hnone := Exchange.given?_of_write (s := s) (t := (s.perform step).2) hwrites
      (s.perform step).1
    have hholds := holds_reply (p := next (s.perform step).1) (e := ⟨s, step, _, _⟩) hm.holds
      ⟨step, next, rest⟩ fun stream h => absurd (hnone.symm.trans h) nofun
    rwa [hnone] at hholds
  | @refuse i step next rest failure =>
    refine ⟨fun j s hs => ?_, ?_⟩
    · obtain ⟨hwriting, hj⟩ := Option.filter_eq_some_iff.mp hs
      obtain ⟨step', next', hrest, hwrites⟩ := hm.writes j s hwriting
      have hj : j ≠ i := by simpa using hj
      exact ⟨step', next', (reply_rest_of_ne hj).trans hrest, hwrites⟩
    · exact holds_reply (p := next (.error failure)) (e := ⟨m.store, step, .error failure, m.store⟩)
        hm.holds ⟨step, next, rest⟩ fun _ h => absurd h nofun

end Machine

namespace Course

variable {σ τ : Course ι β} {i j : ι} {e : Exchange} {p : Program (β i)}

/-- A call that takes a number from a stream does so in its turn. -/
theorem takesTurns_reply {holder : Stream → Option ι} (hσ : σ.TakesTurns) (hholds : σ.Holds holder)
    (hi : σ.Active i) (hlocked : ∀ stream n, e.step.issue? e.reply = some (stream, n) →
      ∃ x, (i, x) ∈ σ.trace ∧ x.given? = some stream) : (σ.reply i e p).TakesTurns := by
  intro before j y after stream htrace hgiven hactive k x n hx hissue
  have hold := hactive.of_reply hi
  rw [reply_trace] at htrace
  rcases List.eq_nil_or_concat after with rfl | ⟨after, last, rfl⟩
  · exact absurd hx List.not_mem_nil
  · rw [List.concat_eq_append, ← List.cons_append, ← List.append_assoc] at htrace
    obtain ⟨hbefore, hlast⟩ := List.append_inj' htrace rfl
    rw [List.concat_eq_append] at hx
    rcases List.mem_append.mp hx with hx | hx
    · exact hσ before j y after stream hbefore hgiven hold k x n hx hissue
    · rw [← hlast] at hx
      obtain ⟨rfl, rfl⟩ := Prod.ext_iff.mp (List.mem_singleton.mp hx)
      obtain ⟨z, hz, hlocked⟩ := hlocked stream n hissue
      have hy : (j, y) ∈ σ.trace := by
        rw [hbefore]
        exact List.mem_append_right _ List.mem_cons_self
      exact Option.some.inj
        ((hholds _ z stream hz hlocked hi).symm.trans (hholds _ y stream hy hgiven hold))

end Course

section Clock

open Course

variable {service : Service} {jobs : ι → Job} {clock : Nat → Int}
  {σ τ : Course ι fun i => (jobs i).Answer} {i : ι}

/-- Numbers of each stream are taken in the order of the years of the calls that take them. -/
def Chronological (jobs : ι → Job) (σ : Course ι fun i => (jobs i).Answer) : Prop :=
  σ.issued.Pairwise fun p q =>
    p.2.1 = q.2.1 → (jobs p.1).call.now.year ≤ (jobs q.1).call.now.year

def Forward (clock : Nat → Int) : Prop := ∀ k l, k ≤ l → clock k ≤ clock l

/-- A clock shows a year after each number of requests. A call that takes a number has read the year
before that, and not before it was given the lock of the stream. -/
def ReadsClock (jobs : ι → Job) (clock : Nat → Int) (σ : Course ι fun i => (jobs i).Answer) :
    Prop :=
  ∀ before i x after stream n, σ.trace = before ++ (i, x) :: after →
    x.step.issue? x.reply = some (stream, n) →
      ∃ k, k ≤ before.length ∧ (jobs i).call.now.year = clock k ∧
        ∀ earlier e between, before = earlier ++ (i, e) :: between → e.given? = some stream →
          earlier.length < k

omit [DecidableEq ι] in
theorem readsClock_of_shown
    (h : ∀ p ∈ σ.trace.zipIdx, (p.1.2.step.issue? p.1.2.reply).isSome →
      (jobs p.1.1).call.now.year = clock p.2) : ReadsClock jobs clock σ := by
  intro before i x after stream n htrace hissue
  refine ⟨before.length, Nat.le_refl _, h ((i, x), before.length) ?_ ?_, ?_⟩
  · rw [htrace, List.zipIdx_append]
    simp
  · exact Option.isSome_of_eq_some hissue
  · rintro earlier e between rfl -
    simp

theorem chronological_reply {e : Exchange} {p : Program (jobs i).Answer} (hclock : Forward clock)
    (hread : ReadsClock jobs clock (σ.reply i e p)) (hσ : Chronological jobs σ)
    (hturns : σ.TakesTurns) (hi : σ.Active i)
    (hlocked : ∀ stream n, e.step.issue? e.reply = some (stream, n) →
      ∃ x, (i, x) ∈ σ.trace ∧ x.given? = some stream) : Chronological jobs (σ.reply i e p) := by
  rw [Chronological, issued_reply]
  refine List.pairwise_append.mpr ⟨hσ, ?_, fun q hq r hr hstream => ?_⟩
  · cases e.step.issue? e.reply with
    | none => exact .nil
    | some x => exact List.pairwise_singleton _ _
  · obtain ⟨x, hissue, rfl⟩ := Option.map_eq_some_iff.mp (Option.mem_toList.mp hr)
    obtain ⟨⟨j, y⟩, hy, hq⟩ := List.mem_filterMap.mp hq
    obtain ⟨z, hz, rfl⟩ := Option.map_eq_some_iff.mp hq
    obtain ⟨stream, n⟩ := x
    obtain ⟨_, m⟩ := z
    obtain rfl : _ = stream := hstream
    obtain ⟨k, -, hyear, hlater⟩ := hread σ.trace i e [] _ n rfl hissue
    obtain ⟨g, hg, hgiven⟩ := hlocked _ n hissue
    obtain ⟨earlier, between, hbefore⟩ := List.append_of_mem hg
    have hlt := hlater earlier g between hbefore hgiven
    -- Either the earlier call was done before this one got the lock, or it is the same call.
    rw [hbefore] at hy
    rcases List.mem_append.mp hy with hy | hy
    · obtain ⟨first, second, rfl⟩ := List.append_of_mem hy
      obtain ⟨l, hl, hyear', -⟩ := hread first j y _ _ m
        (by rw [reply_trace, hbefore, List.append_assoc, List.append_assoc]; rfl) hz
      have hkl : l ≤ k := by
        rw [List.length_append] at hlt
        omega
      change (jobs j).call.now.year ≤ (jobs i).call.now.year
      rw [hyear, hyear']
      exact hclock l k hkl
    · rcases List.mem_cons.mp hy with hy | hy
      · obtain ⟨rfl, rfl⟩ := Prod.ext_iff.mp hy
        exact Int.le_refl _
      · obtain rfl := hturns earlier i g between _ hbefore hgiven hi j y m hy hz
        exact Int.le_refl _

theorem ReadsClock.of_move (h : Course.Move σ τ) (hread : ReadsClock jobs clock τ) :
    ReadsClock jobs clock σ := by
  obtain ⟨-, -⟩ := h
  rename_i i step next reply t
  intro before j x after stream n htrace hissue
  refine hread before j x (after ++ [(i, ⟨σ.store, step, reply, t⟩)]) stream n ?_ hissue
  rw [reply_trace, htrace, List.append_assoc, List.cons_append]

/-- What calls come to that take turns in streams and read a clock. -/
structure Orderly (service : Service) (jobs : ι → Job)
    (σ : Course ι fun i => (jobs i).Answer) : Prop extends Conducted service jobs σ where
  turns : σ.TakesTurns
  chronological : Chronological jobs σ

theorem Orderly.move {holder : Stream → Option ι} (h : Course.Move σ τ)
    (hσ : Orderly service jobs σ) (hholds : σ.Holds holder) (hclock : Forward clock)
    (hread : ReadsClock jobs clock τ) : Orderly service jobs τ := by
  have hconducted := hσ.toConducted.move h
  obtain ⟨hrest, -⟩ := h
  rename_i i step next reply t
  have hi : σ.Active i := ⟨step, next, hrest⟩
  obtain ⟨tenant, -, prompted⟩ := hσ.prompts hrest
  have hlocked : ∀ stream n, step.issue? reply = some (stream, n) →
      ∃ x, (i, x) ∈ σ.trace ∧ x.given? = some stream := by
    intro stream n hissue
    obtain ⟨a, ha, rfl⟩ := Step.allocation?_of_issue? hissue
    obtain ⟨r, hr, hgiven⟩ := prompted.locked ha
    obtain ⟨x, hx, rfl⟩ := exists_mem_of_told hr
    exact ⟨x, hx, hgiven⟩
  exact ⟨hconducted, takesTurns_reply hσ.turns hholds hi hlocked,
    chronological_reply hclock hread hσ.chronological hσ.turns hi hlocked⟩

/-- As the clock does not go back, years do not go back from one number of a stream to the next. -/
theorem orderly_of_reaches {m n : Machine ι fun i => (jobs i).Answer} (h : Machine.Reaches m n)
    (hcurrent : m.Current) (hordered : m.Ordered) (hm : Orderly service jobs m.toCourse)
    (hclock : Forward clock) (hread : ReadsClock jobs clock n.toCourse) :
    n.Ordered ∧ Orderly service jobs n.toCourse := by
  induction h with
  | refl => exact ⟨hordered, hm⟩
  | tail hreach hmove ih =>
    rcases hmove.simulates (Machine.current_of_reaches hreach hcurrent) with heq | hcourse
    · obtain ⟨hordered, horderly⟩ := ih (heq ▸ hread)
      exact ⟨hmove.ordered hordered, heq ▸ horderly⟩
    · obtain ⟨hordered, horderly⟩ := ih (hread.of_move hcourse)
      exact ⟨hmove.ordered hordered, horderly.move hcourse hordered.holds hclock hread⟩

theorem chronological_of_reaches {s : Store} {m : Machine ι fun i => (jobs i).Answer}
    (h : Machine.Reaches (.start s fun i => (jobs i).program service) m)
    (hclock : Forward clock) (hread : ReadsClock jobs clock m.toCourse) :
    Chronological jobs m.toCourse := by
  have hordered : (Machine.start s fun i => (jobs i).program service).Ordered :=
    ⟨fun _ _ hs => absurd hs nofun, fun _ _ _ he => absurd he List.not_mem_nil⟩
  have horderly : Orderly service jobs (Course.start s fun i => (jobs i).program service) :=
    { conducted_start s with
      turns := fun before _ _ _ _ htrace =>
        absurd htrace.symm (List.append_ne_nil_of_right_ne_nil before (List.cons_ne_nil _ _))
      chronological := List.Pairwise.nil }
  have hend := orderly_of_reaches h (fun _ _ hs => absurd hs nofun) hordered horderly hclock hread
  exact hend.2.chronological

end Clock

end Turns

end Docket
