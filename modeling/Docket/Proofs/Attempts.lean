import Docket.Proofs.Races

/-! # Attempts that lose a race

A request for a number is made again as long as it loses a race for a key, but only so often. What
is reported is the outcome of the last attempt; the attempts before it leave nothing behind. An
attempt that comes after a rival's counts on with the counter of the rival.
-/

namespace Docket

open Store Issuing Simulation

variable {α : Type}

/-- A reply to a request that lost a race for a key. -/
def Lost (reply : Except StoreFailure α) : Prop := ∃ key, reply = .error (.duplicate key)

/-- The last of at most `n` attempts: the first that does not lose a race, or the last of all. -/
structure IsLast (outcome : Nat → Except StoreFailure α) (n last : Nat) : Prop where
  lt : last < n
  lost : ∀ j < last, Lost (outcome j)
  settles : last + 1 < n → ¬ Lost (outcome last)

/-- How the outcome of an attempt is reported to the caller. -/
inductive Conveys : Except StoreFailure α → Except Failure α → Prop
  | success (a : α) : Conveys (.ok a) (.ok a)
  | conflict (key : String) :
      Conveys (.error (.duplicate key)) (.error (.error (.conflict ("Duplicate key: " ++ key))))
  | modified (document : Id) :
      Conveys (.error (.stale document)) (.error (.error (.concurrentModification document)))
  | persistence (causes : List String) :
      Conveys (.error (.backend causes)) (.error (.error (.persistence (chainText causes))))
  | cancelled : Conveys (.error .cancelled) (.error (.error .cancelled))
  | overflow (o : Overflow) : Conveys (.error (.overflow o)) (.error (.overflow o))

section Last

variable {outcome : Nat → Except StoreFailure α} {n i j : Nat}

theorem isLast_one_iff : IsLast outcome 1 i ↔ i = 0 := by
  constructor
  · intro h
    exact Nat.lt_one_iff.mp h.lt
  · rintro rfl
    exact ⟨Nat.one_pos, fun j hj => absurd hj (Nat.not_lt_zero j), fun h => absurd h (by omega)⟩

theorem isLast_succ_of_lost (h : Lost (outcome 0)) :
    IsLast outcome (n + 2) i ↔ ∃ j, i = j + 1 ∧ IsLast (fun k => outcome (k + 1)) (n + 1) j := by
  constructor
  · rintro ⟨hlt, hlost, hsettles⟩
    cases i with
    | zero => exact absurd h (hsettles (by omega))
    | succ j =>
      exact ⟨j, rfl, by omega, fun k hk => hlost (k + 1) (by omega), fun hj => hsettles (by omega)⟩
  · rintro ⟨j, rfl, hlt, hlost, hsettles⟩
    refine ⟨by omega, fun k hk => ?_, fun hj => hsettles (by omega)⟩
    cases k with
    | zero => exact h
    | succ k => exact hlost k (by omega)

theorem isLast_succ_of_not_lost (h : ¬ Lost (outcome 0)) : IsLast outcome (n + 2) i ↔ i = 0 := by
  constructor
  · intro hlast
    by_contra hi
    exact h (hlast.lost 0 (Nat.pos_of_ne_zero hi))
  · rintro rfl
    exact ⟨by omega, fun j hj => absurd hj (Nat.not_lt_zero j), fun _ => h⟩

theorem not_lost_of_isOk {reply : Except StoreFailure α} (h : reply.isOk) : ¬ Lost reply := by
  rintro ⟨key, rfl⟩
  cases h

theorem exists_isLast (outcome : Nat → Except StoreFailure α) (n : Nat) :
    ∃ i, IsLast outcome (n + 1) i := by
  induction n generalizing outcome with
  | zero => exact ⟨0, isLast_one_iff.mpr rfl⟩
  | succ n ih =>
    by_cases h : Lost (outcome 0)
    · obtain ⟨i, hi⟩ := ih fun k => outcome (k + 1)
      exact ⟨i + 1, (isLast_succ_of_lost h).mpr ⟨i, rfl, hi⟩⟩
    · exact ⟨0, (isLast_succ_of_not_lost h).mpr rfl⟩

theorem IsLast.le_of_not_lost (hi : IsLast outcome n i) (hj : ¬ Lost (outcome j)) : i ≤ j := by
  by_contra h
  exact hj (hi.lost j (by omega))

theorem IsLast.le_of_lost (hi : IsLast outcome n i) (hj : j < n)
    (hlost : ∀ k < j, Lost (outcome k)) : j ≤ i := by
  by_contra h
  exact hi.settles (by omega) (hlost i (by omega))

theorem IsLast.unique (hi : IsLast outcome n i) (hj : IsLast outcome n j) : i = j :=
  Nat.le_antisymm (hj.le_of_lost hi.lt hi.lost) (hi.le_of_lost hj.lt hj.lost)

end Last

theorem conveys_toFailure (reply : Except StoreFailure α) :
    Conveys reply (reply.mapError StoreFailure.toFailure) := by
  rcases reply with f | a
  · cases f <;> constructor
  · exact .success a

theorem isOk_mapError (reply : Except StoreFailure α) :
    (reply.mapError StoreFailure.toFailure).isOk = reply.isOk := by
  cases reply <;> rfl

namespace Program

/-- A program ends with a value once its requests have been given these replies in turn. -/
inductive Ends : Program α → List ((step : Step) × step.Reply) → α → Prop
  | done (a : α) : Ends (.done a) [] a
  | request {step : Step} {next : step.Reply → Program α} {reply : step.Reply}
      {rest : List ((step : Step) × step.Reply)} {a : α} (ends : Ends (next reply) rest a) :
      Ends (.request step next) (⟨step, reply⟩ :: rest) a

variable {step : Step} {a b : α} {answers : List ((step : Step) × step.Reply)}

theorem ends_done_iff : (done a).Ends answers b ↔ answers = [] ∧ b = a := by
  constructor
  · rintro ⟨⟩
    exact ⟨rfl, rfl⟩
  · rintro ⟨rfl, rfl⟩
    exact .done _

theorem ends_request_cons_iff {next : step.Reply → Program α} {reply : step.Reply} :
    (request step next).Ends (⟨step, reply⟩ :: answers) a ↔ (next reply).Ends answers a := by
  constructor
  · rintro (_ | ends)
    exact ends
  · exact .request

def replies (step : Step) (outcome : Nat → step.Reply) (k : Nat) :
    List ((step : Step) × step.Reply) :=
  (List.range k).map fun j => ⟨step, outcome j⟩

theorem replies_succ (outcome : Nat → step.Reply) (k : Nat) :
    replies step outcome (k + 1)
      = ⟨step, outcome 0⟩ :: replies step (fun j => outcome (j + 1)) k := by
  rw [replies, List.range_succ_eq_map, List.map_cons, List.map_map]
  rfl

theorem replies_eq_nil_iff {outcome : Nat → step.Reply} {k : Nat} :
    replies step outcome k = [] ↔ k = 0 := by
  rw [replies, List.map_eq_nil_iff, List.range_eq_nil]

theorem ends_request_iff {next : step.Reply → Program α} {outcome : Nat → step.Reply} {k : Nat} :
    (request step next).Ends (replies step outcome k) a ↔
      ∃ l, k = l + 1 ∧ (next (outcome 0)).Ends (replies step (fun j => outcome (j + 1)) l) a := by
  constructor
  · intro h
    cases k with
    | zero => cases h
    | succ l =>
      rw [replies_succ, ends_request_cons_iff] at h
      exact ⟨l, rfl, h⟩
  · rintro ⟨l, rfl, h⟩
    rw [replies_succ, ends_request_cons_iff]
    exact h

end Program

namespace Service

open Program

variable {step : Step}

theorem exists_retrying_bind_succ (step : Step) (n : Nat) (k : step.Reply → Program α) :
    ∃ next, (retrying (ask step) (n + 1)).bind k = .request step next ∧
      (∀ reply, Lost reply → next reply = (retrying (ask step) n).bind k) ∧
      ∀ reply, ¬ Lost reply → next reply = k reply := by
  refine ⟨_, retrying_bind_succ step n k, ?_, fun reply h => ?_⟩
  · rintro _ ⟨key, rfl⟩
    rfl
  · split
    · next key => exact absurd ⟨key, rfl⟩ h
    · rfl

/-- A request is made up to the last attempt and no further, and what follows is made of the
outcome of that. -/
theorem ends_retrying_iff (g : step.Reply → α) (n : Nat) (outcome : Nat → step.Reply) (k : Nat)
    (a : α) :
    ((retrying (ask step) n).bind fun reply => done (g reply)).Ends (replies step outcome k) a ↔
      ∃ last, IsLast outcome (n + 1) last ∧ k = last + 1 ∧ a = g (outcome last) := by
  induction n generalizing outcome k with
  | zero =>
    change (request step fun reply => done (g reply)).Ends _ a ↔ _
    simp [ends_request_iff, ends_done_iff, replies_eq_nil_iff, isLast_one_iff]
  | succ n ih =>
    obtain ⟨next, hrun, hlost, hsettled⟩ :=
      exists_retrying_bind_succ step n fun reply => done (g reply)
    rw [hrun, ends_request_iff]
    by_cases h : Lost (outcome 0)
    · simp only [hlost _ h, ih, isLast_succ_of_lost h]
      constructor
      · rintro ⟨l, rfl, last, hlast, rfl, rfl⟩
        exact ⟨last + 1, ⟨last, rfl, hlast⟩, rfl, rfl⟩
      · rintro ⟨_, ⟨last, rfl, hlast⟩, rfl, rfl⟩
        exact ⟨last + 1, rfl, last, hlast, rfl, rfl⟩
    · simp [hsettled _ h, ends_done_iff, replies_eq_nil_iff, isLast_succ_of_not_lost h]

theorem ends_attempt_iff {service : Service} {outcome : Nat → step.Reply} {last k : Nat}
    {result : Except Failure step.Result} (hlast : IsLast outcome (max 1 service.attempts) last) :
    (service.attempt step).run.Ends (replies step outcome k) result ↔
      k = last + 1 ∧ result = (outcome last).mapError StoreFailure.toFailure := by
  have hrun : (service.attempt step).run
      = (retrying (ask step) (service.attempts - 1)).bind
        fun reply => done (reply.mapError StoreFailure.toFailure) := by
    rw [run_attempt]
    congr 1
    funext reply
    cases reply <;> rfl
  have hn : service.attempts - 1 + 1 = max 1 service.attempts := by omega
  rw [hrun, ends_retrying_iff, hn]
  constructor
  · rintro ⟨i, hi, rfl, rfl⟩
    obtain rfl := hi.unique hlast
    exact ⟨rfl, rfl⟩
  · rintro ⟨rfl, rfl⟩
    exact ⟨last, hlast, rfl, rfl⟩

end Service

namespace Store

variable {s t : Store} {a : Allocation} {w : Counter} {step : Step}

/-- A store whose stream can be read, and in which a rival's counter has the year of an
allocation. -/
structure Preempted (s : Store) (a : Allocation) (w : Counter) : Prop
    extends Ready s a.stream where
  stored : CounterRow.encode w ∈ s.counters
  live : w.isLive
  stream : w.stream = a.stream
  year : w.year = some a.year

/-- What a request comes to that plans with one counter: its reply and what it leaves. -/
inductive CountsOn (s : Store) (w : Counter) : (step : Step) → step.Reply × Store → Prop
  | allocated {a : Allocation} {c : Counter} (plan : a.plan [w] = .ok (.update c)) :
      CountsOn s w (.allocate a) (.ok c, s.changeCounter w.id fun _ => .encode c)
  | numbered {a : Allocation} {c : Counter} {d : Document} {expected : Int} {t : Store}
      (plan : a.plan [w] = .ok (.update c))
      (change : (s.changeCounter w.id fun _ => .encode c).changeDocument d expected
        (fun r => r.numbered d c.number.formatted) = .ok t) :
      CountsOn s w (.assignNumber d expected a)
        (.ok ({ d with number := some c.number.formatted }, c.number), t)
  | stale {a : Allocation} {c : Counter} {d : Document} {expected : Int}
      (plan : a.plan [w] = .ok (.update c))
      (changed : ∀ r ∈ s.documents, r.id = d.id → r.tenant = d.tenant → r.version ≠ expected) :
      CountsOn s w (.assignNumber d expected a) (.error (.stale d.id), s)
  | overflow {step : Step} {a : Allocation} {o : Overflow}
      (allocates : Scene.allocation? step = some a) (plan : a.plan [w] = .error o) :
      CountsOn s w step (.error (.overflow o), s)

theorem CountsOn.not_lost {reply : step.Reply} (h : s.CountsOn w step (reply, t)) :
    ¬ Lost reply := by
  rintro ⟨key, rfl⟩
  cases h

theorem Preempted.exists_rows (h : s.Preempted a w) :
    ∃ counters, CounterRow.decodeAll (s.streamRows a.stream) = .ok counters ∧ w ∈ counters ∧
      select? counters a.year = some w := by
  obtain ⟨counters, hrows⟩ := h.rows
  obtain ⟨hencoded, -⟩ := CounterRow.decodeAll_eq_ok_iff.mp hrows
  have hrow : CounterRow.encode w ∈ s.streamRows a.stream :=
    mem_streamRows.mpr ⟨h.stored, h.stream, h.live⟩
  have hw : w ∈ counters := mem_of_encode (hencoded ▸ hrow)
  refine ⟨counters, hrows, hw, select?_of_only hw h.year fun d hd hyear => ?_⟩
  have hd : CounterRow.encode d ∈ s.streamRows a.stream := hencoded ▸ List.mem_map_of_mem hd
  exact encode_injective (h.eq_of_year hd hrow (hyear.trans h.year.symm))

theorem Preempted.plan_eq (h : s.Preempted a w) :
    a.plan [w] = if (a.next w).value < int64Bound then .ok (.update (a.next w))
      else .error .integerSum := by
  apply Allocation.plan_of_some
  exact select?_of_only (List.mem_singleton_self w) h.year fun d hd _ => List.mem_singleton.mp hd

theorem Preempted.advance (h : s.Preempted a w) :
    s.advance a = if (a.next w).value < int64Bound then
        .ok (a.next w, s.changeCounter w.id fun _ => .encode (a.next w))
      else .error (.overflow .integerSum) := by
  obtain ⟨counters, hrows, hw, hselect⟩ := h.exists_rows
  have hrolls : ¬ a.Rolls w := fun hrolls => hrolls.2 h.year
  have hstorable : w.Storable := (mem_of_rows hrows hw).2.2.2
  have hfree : s.isTaken (CounterRow.encode (a.next w)).liveKey w.id = false := by
    rw [isTaken_eq_false_iff, Allocation.next_of_not_rolls hrolls]
    exact fun q hq hlive hkey => h.liveKeys q hq _ h.stored hlive h.live hkey
  have hdecode : (CounterRow.encode (a.next w)).decode = .ok (a.next w) := by
    rw [Allocation.next_of_not_rolls hrolls]
    exact CounterRow.decode_encode ⟨hstorable.padding, hstorable.year⟩
  rw [h.toKeyed.advance_of_some hrows hselect, hfree, hdecode]
  by_cases hfits : (a.next w).value < int64Bound
  · rw [if_pos hfits, if_neg (not_not.mpr hfits)]
    rfl
  · rw [if_neg hfits, if_pos hfits]

/-- What is planned with the rival's counter is what comes of it, unless the document that is to be
numbered has changed. -/
theorem Preempted.countsOn (h : s.Preempted a w) (hstep : Scene.allocation? step = some a) :
    s.CountsOn w step (s.perform step) := by
  have hplan := h.plan_eq
  have hadvance := h.advance
  by_cases hfits : (a.next w).value < int64Bound
  · rw [if_pos hfits] at hplan hadvance
    cases step with
    | allocate b =>
      obtain rfl : b = a := Option.some.inj hstep
      have hperform : s.perform (.allocate b) = s.commit (s.advance b) := rfl
      rw [hperform, hadvance]
      exact .allocated hplan
    | assignNumber d expected b =>
      obtain rfl : b = a := Option.some.inj hstep
      have hperform : s.perform (.assignNumber d expected b)
        = s.commit (s.assignNumber d expected b) := rfl
      rw [hperform]
      cases hchange : (s.changeCounter w.id fun _ => .encode (b.next w)).changeDocument d expected
          fun r => r.numbered d (b.next w).number.formatted with
      | ok t =>
        rw [assignNumber_eq_ok_iff.mpr ⟨_, _, hadvance, rfl, rfl, hchange⟩]
        exact .numbered hplan hchange
      | error f =>
        obtain ⟨hchanged, rfl⟩ := changeDocument_eq_error_iff.mp hchange
        rw [assignNumber_eq_error_iff.mpr (Or.inr ⟨_, _, hadvance, hchange⟩)]
        exact .stale hplan hchanged
    | _ => cases hstep
  · rw [if_neg hfits] at hplan hadvance
    rw [perform_of_advance_error hstep hadvance]
    exact .overflow hstep hplan

/-- Of the attempts at an allocation only the last can succeed, and none leaves anything behind that
does not. -/
theorem Replies.eq_last {outcome : Nat → step.Reply} {n last j : Nat}
    (h : s.Replies step (outcome j) t) (hstep : Scene.allocation? step = some a)
    (hlast : IsLast outcome n last) (hj : j ≤ last) (hcommits : (outcome j).isOk ∨ t ≠ s) :
    j = last ∧ (outcome j).isOk := by
  have hok : (outcome j).isOk := by
    rcases hcommits with hok | hchanged
    · exact hok
    · by_contra hfailed
      exact hchanged (h.of_not_ok hstep (Bool.eq_false_of_not_eq_true hfailed))
  exact ⟨Nat.le_antisymm hj (hlast.le_of_not_lost (not_lost_of_isOk hok)), hok⟩

end Store

/-- As many attempts at a request are made as are set, at least one, or up to the first that does
not lose a race; the outcome of the last is reported. Of the attempts at an allocation only the last
can succeed, and none leaves anything behind that does not. One that comes after fewer lost races
than attempts is the last, and plans with the rival's counter. -/
theorem attempt_ends_at_last (config : Config) (step : Step) (outcome : Nat → step.Reply) :
    ∃ last result, IsLast outcome (max 1 config.attempts) last ∧
      Conveys (outcome last) result ∧
      (∀ k r, (config.service.attempt step).run.Ends (Program.replies step outcome k) r ↔
        k = last + 1 ∧ r = result) ∧
      ∀ a, Scene.allocation? step = some a → ∀ before after : Nat → Store,
        (∀ j ≤ last, (before j).Replies step (outcome j) (after j)) →
        (∀ j ≤ last, (outcome j).isOk ∨ after j ≠ before j → j = last ∧ result.isOk) ∧
        ∀ m < max 1 config.attempts, (∀ j < m, Lost (outcome j)) →
          ∀ w, (before m).Preempted a w → (before m).perform step = (outcome m, after m) →
            m = last ∧ (before m).CountsOn w step (outcome m, after m) := by
  obtain ⟨last, hlast⟩ := exists_isLast outcome (max 1 config.attempts - 1)
  rw [Nat.sub_add_cancel (Nat.le_max_left _ _)] at hlast
  have hattempts : max 1 config.service.attempts = max 1 config.attempts := by
    simp [Config.service, Nat.max_comm]
  refine ⟨last, _, hlast, conveys_toFailure (outcome last), fun k r => ?_,
    fun a hstep before after hreplies => ⟨fun j hj hcommits => ?_, ?_⟩⟩
  · exact Service.ends_attempt_iff (hattempts ▸ hlast)
  · obtain ⟨rfl, hok⟩ := (hreplies j hj).eq_last hstep hlast hj hcommits
    exact ⟨rfl, (isOk_mapError _).trans hok⟩
  · intro m hm hlost w hw hperform
    have hcounts := hperform ▸ hw.countsOn hstep
    have hle := hlast.le_of_not_lost hcounts.not_lost
    exact ⟨Nat.le_antisymm (hlast.le_of_lost hm hlost) hle, hcounts⟩

/-- An allocation that finds no counter in its stream, and then that of a rival. -/
def overtakenAllocation : Allocation := Service.allocation {} firstCall.call firstStream

def rivalCounter : Counter := { overtakenAllocation with fresh := .ofNat 6 }.firstCounter

def overtakenStore : Store := { counters := [.encode rivalCounter] }

/-- What attempts come to of which the first two lose the race. -/
def overtakenAttempt (j : Nat) : (Step.allocate overtakenAllocation).Reply × Store :=
  if j < 2 then (.error (.duplicate liveKeyTaken), overtakenStore)
  else overtakenStore.perform (.allocate overtakenAllocation)

theorem preempted_overtakenStore : overtakenStore.Preempted overtakenAllocation rivalCounter := by
  have hempty : Store.Ready {} firstStream := ⟨lawful_empty, [], rfl⟩
  have hadd : Store.addCounter {} (.encode rivalCounter) = .ok overtakenStore := by decide
  exact {
    toReady := hempty.add hadd ⟨by decide, by decide⟩
    stored := List.mem_singleton_self _
    live := rfl
    stream := rfl
    year := rfl }

theorem replies_overtakenAttempt (j : Nat) :
    overtakenStore.Replies _ (overtakenAttempt j).1 (overtakenAttempt j).2 := by
  unfold overtakenAttempt
  split
  · exact .refused _
  · exact .served

/-- The third attempt goes on with the counter of a rival that won twice. -/
theorem attempt_ends_at_third :
    ∃ c : Counter, c.value = 2 ∧
      ((Config.service {}).attempt (.allocate overtakenAllocation)).run.Ends
        [⟨.allocate overtakenAllocation, .error (.duplicate liveKeyTaken)⟩,
          ⟨.allocate overtakenAllocation, .error (.duplicate liveKeyTaken)⟩,
          ⟨.allocate overtakenAllocation, .ok c⟩] (.ok c) := by
  have hlost : ∀ j < 2, Lost (overtakenAttempt j).1 := fun j hj =>
    ⟨liveKeyTaken, by rw [overtakenAttempt, if_pos hj]⟩
  obtain ⟨last, result, -, hconveys, hends, hstores⟩ :=
    attempt_ends_at_last {} (.allocate overtakenAllocation) fun j => (overtakenAttempt j).1
  obtain ⟨-, hthird⟩ := hstores _ rfl (fun _ => overtakenStore) (fun j => (overtakenAttempt j).2)
    fun j _ => replies_overtakenAttempt j
  obtain ⟨rfl, hcounts⟩ := hthird 2 (by decide) hlost _ preempted_overtakenStore rfl
  have hrun := (hends 3 result).mpr ⟨rfl, rfl⟩
  change Program.Ends _ [_, _, ⟨_, (overtakenAttempt 2).1⟩] _ at hrun
  have hplan := preempted_overtakenStore.plan_eq
  rw [if_pos (by decide)] at hplan
  generalize overtakenAttempt 2 = attempt at hrun hconveys hcounts
  obtain ⟨reply, left⟩ := attempt
  cases hcounts with
  | allocated plan =>
    cases hconveys
    cases hplan.symm.trans plan
    exact ⟨_, rfl, hrun⟩
  | overflow allocates plan =>
    cases allocates
    cases hplan.symm.trans plan

end Docket
