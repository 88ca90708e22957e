import Docket.Proofs.Guarded

/-! # What calls have loaded and written

The requests of a call, the documents that it has loaded, and the calls whose writes went through,
all read from the trace of a course.
-/

namespace Docket

open Store Simulation

namespace Exchange

def load? (e : Exchange) : Option Document := e.step.load? e.reply

/-- Whether an exchange is a write that went through. -/
def commits (e : Exchange) : Bool := Scene.isWrite e.step && e.reply.isOk

def Served (e : Exchange) : Prop := e.before.perform e.step = (e.reply, e.after)

/-- An exchange that leaves the store as it was. -/
def Keeps (e : Exchange) : Prop := e.commits = false ∧ e.after = e.before

theorem keeps_of_read {e : Exchange} (h : Scene.isWrite e.step = false)
    (hafter : e.after = e.before) : e.Keeps := by
  refine ⟨?_, hafter⟩
  rw [commits, h, Bool.false_and]

end Exchange

namespace Course

variable {ι : Type} {β : ι → Type} [DecidableEq ι]

def loads (σ : Course ι β) (i : ι) : List Document := (σ.own i).filterMap Exchange.load?

/-- The calls whose writes went through, in that order. -/
def committed (σ : Course ι β) : List ι := (σ.trace.filter fun p => p.2.commits).map Prod.fst

variable {σ : Course ι β} {i j : ι} {e : Exchange} {p : Program (β i)}

theorem mem_committed_iff : i ∈ σ.committed ↔ ∃ e ∈ σ.own i, e.commits = true := by
  simp only [committed, List.mem_map, List.mem_filter, mem_own_iff]
  constructor
  · rintro ⟨⟨_, e⟩, ⟨h, hc⟩, rfl⟩
    exact ⟨e, h, hc⟩
  · rintro ⟨e, h, hc⟩
    exact ⟨_, ⟨h, hc⟩, rfl⟩

theorem loads_reply_self : (σ.reply i e p).loads i = σ.loads i ++ e.load?.toList := by
  rw [loads, own_reply_self, List.filterMap_append]
  cases h : e.load? with
  | none => simp [loads, h]
  | some d => simp [loads, h]

theorem loads_reply_of_ne (h : j ≠ i) : (σ.reply i e p).loads j = σ.loads j := by
  rw [loads, own_reply_of_ne h, loads]

theorem mem_loads_reply {d : Document} (h : d ∈ σ.loads j) : d ∈ (σ.reply i e p).loads j := by
  by_cases hj : j = i
  · subst hj
    rw [loads_reply_self]
    exact List.mem_append_left _ h
  · rw [loads_reply_of_ne hj]
    exact h

theorem done_reply {step : Step} {next : step.Reply → Program (β i)}
    (hrest : σ.rest i = .request step next) {a : β j} (h : σ.rest j = .done a) :
    (σ.reply i e p).rest j = .done a := by
  by_cases hj : j = i
  · subst hj
    cases hrest.symm.trans h
  · rw [reply_rest_of_ne hj]
    exact h

theorem committed_reply :
    (σ.reply i e p).committed = if e.commits then σ.committed ++ [i] else σ.committed := by
  unfold committed
  rw [reply_trace, List.filter_append, List.map_append]
  cases h : e.commits with
  | true => simp [h]
  | false => simp [h]

theorem served_replay (h : ∀ p ∈ σ.trace, p.2.Served) (is : List ι) :
    ∀ p ∈ (σ.replay is).trace, p.2.Served := by
  induction is generalizing σ with
  | nil => exact h
  | cons i is ih =>
    refine @ih (σ.serve i) fun p hp => ?_
    unfold serve at hp
    split at hp
    · exact h p hp
    · rcases List.mem_append.mp hp with hp | hp
      · exact h p hp
      · obtain rfl := List.mem_singleton.mp hp
        exact rfl

theorem count_committed : σ.committed.count i = (σ.own i).countP Exchange.commits := by
  rw [committed, own, List.count, List.countP_map, List.countP_map, List.countP_filter,
    List.countP_filter]
  refine List.countP_congr fun p _ => ?_
  simp [and_comm]

end Course

end Docket
