import Mathlib.Data.List.Basic
import Mathlib.Logic.Function.Basic
import Mathlib.Logic.Relation
import Docket.Proofs.Programs
import Docket.Proofs.Steps

/-! # Calls at the same time

Calls that are under way together take turns, one request at a time, in any order. The store may
also refuse a request, because the caller has given up or for any other reason; then nothing has
happened. The same calls may be looked at more closely, with the locks of streams and with writes
that begin, and are committed or rolled back, while other calls go on. What can be reached there can
be reached by taking turns.
-/

namespace Docket

open Store Simulation

def Id.ofNat (n : Nat) : Id := (Id.ofNat? n).getD .nil

/-- A call with what it asks for. -/
structure Job where
  call : Call
  request : Request

namespace Job

abbrev Answer (job : Job) : Type := Except Failure (Outcome job.request.Answer)

def program (service : Service) (job : Job) : Program job.Answer :=
  (service.serve job.call job.request).run

end Job

/-- The reply to a request and what it leaves of the store. -/
inductive Store.Replies (s : Store) (step : Step) : step.Reply → Store → Prop
  | served : Replies s step (s.perform step).1 (s.perform step).2
  | refused (failure : StoreFailure) : Replies s step (.error failure) s

namespace Store

variable {s t : Store} {step : Step} {reply : step.Reply} {a : Issuing.Allocation}

theorem Replies.lawful (h : s.Replies step reply t) (hs : s.Lawful) : t.Lawful := by
  cases h with
  | served => exact hs.perform step
  | refused => exact hs

theorem Replies.perform_eq {b : step.Result} (h : s.Replies step (.ok b) t) :
    s.perform step = (.ok b, t) := by
  generalize hreply : Except.ok b = reply at h ⊢
  cases h with
  | served => rfl
  | refused f => cases hreply

theorem Replies.of_error {f : StoreFailure} (h : s.Replies step (.error f) t)
    (hfailed : ∀ f, (s.perform step).1 = .error f → (s.perform step).2 = s) : t = s := by
  generalize hreply : Except.error f = reply at h
  cases h with
  | served => exact hfailed f hreply.symm
  | refused => rfl

theorem Replies.of_not_ok {reply : step.Reply} (h : s.Replies step reply t)
    (hstep : Scene.allocation? step = some a) (hreply : reply.isOk = false) : t = s := by
  cases reply with
  | ok b => cases hreply
  | error f => exact h.of_error fun g hg => perform_of_allocation_error hstep hg

theorem Replies.of_read (h : s.Replies step reply t) (hstep : Scene.isWrite step = false) :
    t = s := by
  cases h with
  | served => exact perform_of_read hstep
  | refused => rfl

theorem Replies.effect (h : s.Replies step reply t) (hs : s.Keyed)
    (hstep : Scene.allocation? step = some a) : s.Effect a (step.issue? reply) t := by
  cases h with
  | served => exact hs.effect hstep
  | refused f =>
    rw [Step.issue?_error]
    exact .none

/-- A request that reads or allocates leaves the store alone, or takes a number from a counter that
it advances. -/
theorem Replies.none_or_advances (h : s.Replies step reply t) (hs : s.Keyed)
    (hstep : Scene.isWrite step = false ∨ ∃ a, Scene.allocation? step = some a) :
    step.issue? reply = none ∧ t = s ∨
      ∃ a c u, Scene.allocation? step = some a ∧ s.Advances a c u ∧ t.counters = u.counters ∧
        step.issue? reply = some (a.stream, c.number) := by
  rcases hstep with hstep | ⟨a, hstep⟩
  · exact Or.inl ⟨Step.issue?_of_allocation? (Scene.allocation?_of_read hstep) reply,
      h.of_read hstep⟩
  · have heffect := h.effect hs hstep
    generalize step.issue? reply = issue at heffect ⊢
    cases heffect with
    | none => exact Or.inl ⟨rfl, rfl⟩
    | some hadvances hcounters => exact Or.inr ⟨a, _, _, hstep, hadvances, hcounters, rfl⟩

end Store

/-- A request with its reply, and the store before and after. -/
structure Exchange where
  before : Store
  step : Step
  reply : step.Reply
  after : Store

/-- Calls that are under way, with what is left of their programs, and all requests so far. -/
structure Course (ι : Type) (β : ι → Type) where
  store : Store
  rest : (i : ι) → Program (β i)
  trace : List (ι × Exchange)

namespace Course

variable {ι : Type} {β : ι → Type} [DecidableEq ι]

def start (s : Store) (programs : (i : ι) → Program (β i)) : Course ι β := ⟨s, programs, []⟩

def reply (σ : Course ι β) (i : ι) (e : Exchange) (p : Program (β i)) : Course ι β :=
  ⟨e.after, Function.update σ.rest i p, σ.trace ++ [(i, e)]⟩

/-- Some call makes its next request. -/
inductive Move (σ : Course ι β) : Course ι β → Prop
  | mk {i : ι} {step : Step} {next : step.Reply → Program (β i)} {reply : step.Reply} {t : Store}
      (rest : σ.rest i = .request step next) (replies : σ.store.Replies step reply t) :
      Move σ (σ.reply i ⟨σ.store, step, reply, t⟩ (next reply))

abbrev Reaches : Course ι β → Course ι β → Prop := Relation.ReflTransGen Move

variable {σ τ : Course ι β} {i j : ι} {e : Exchange} {p : Program (β i)}

@[simp] theorem reply_store : (σ.reply i e p).store = e.after := rfl

@[simp] theorem reply_trace : (σ.reply i e p).trace = σ.trace ++ [(i, e)] := rfl

@[simp] theorem reply_rest_self : (σ.reply i e p).rest i = p := by
  simp only [reply, Function.update_self]

theorem reply_rest_of_ne (h : j ≠ i) : (σ.reply i e p).rest j = σ.rest j := by
  simp only [reply, Function.update_of_ne h]

def own (σ : Course ι β) (i : ι) : List Exchange :=
  (σ.trace.filter fun p => p.1 = i).map Prod.snd

theorem mem_own_iff : e ∈ σ.own i ↔ (i, e) ∈ σ.trace := by
  simp only [own, List.mem_map, List.mem_filter, decide_eq_true_eq]
  constructor
  · rintro ⟨⟨_, _⟩, ⟨h, rfl⟩, rfl⟩
    exact h
  · exact fun h => ⟨_, ⟨h, rfl⟩, rfl⟩

theorem own_reply_self : (σ.reply i e p).own i = σ.own i ++ [e] := by
  simp [own]

theorem all_own_reply {P : Exchange → Prop} (h : ∀ x ∈ σ.own i, P x) (he : P e) :
    ∀ x ∈ (σ.reply i e p).own i, P x := by
  intro x hx
  rw [own_reply_self] at hx
  rcases List.mem_append.mp hx with hx | hx
  · exact h x hx
  · rw [List.mem_singleton.mp hx]
    exact he

theorem own_reply_of_ne (h : j ≠ i) : (σ.reply i e p).own j = σ.own j := by
  simp [own, h.symm]

def failure? {ε α : ι → Type} (σ : Course ι fun i => Except (ε i) (α i)) (i : ι) :
    Option (ε i) :=
  match σ.rest i with
  | .done (.error f) => some f
  | _ => none

omit [DecidableEq ι] in
theorem failure?_eq_some_iff {ε α : ι → Type} {σ : Course ι fun i => Except (ε i) (α i)} {i : ι}
    {f : ε i} : σ.failure? i = some f ↔ σ.rest i = .done (.error f) := by
  unfold failure?
  split
  · next g h => rw [h, Option.some.injEq, Program.done.injEq, Except.error.injEq]
  · next h => exact ⟨nofun, fun hf => absurd hf (h f)⟩

def succeeds {ε α : ι → Type} (σ : Course ι fun i => Except (ε i) (α i)) (i : ι) : Bool :=
  match σ.rest i with
  | .done (.ok _) => true
  | _ => false

omit [DecidableEq ι] in
theorem succeeds_iff {ε α : ι → Type} {σ : Course ι fun i => Except (ε i) (α i)} {i : ι} :
    σ.succeeds i = true ↔ ∃ a, σ.rest i = .done (.ok a) := by
  unfold succeeds
  split
  · next a h => exact iff_of_true rfl ⟨a, h⟩
  · next h => exact iff_of_false nofun fun ⟨a, ha⟩ => h a ha

def serve (σ : Course ι β) (i : ι) : Course ι β :=
  match σ.rest i with
  | .done _ => σ
  | .request step next =>
    let (reply, t) := σ.store.perform step
    σ.reply i ⟨σ.store, step, reply, t⟩ (next reply)

theorem serve_eq {step : Step} {next : step.Reply → Program (β i)}
    (hrest : σ.rest i = .request step next) {reply : step.Reply} {t : Store}
    (hperform : σ.store.perform step = (reply, t)) :
    σ.serve i = σ.reply i ⟨σ.store, step, reply, t⟩ (next reply) := by
  simp only [serve, hrest, hperform]

/-- The turns of calls that run one after another, as many of each. -/
def inTurn (calls turns : Nat) : List (Fin calls) :=
  (List.finRange calls).flatMap (List.replicate turns)

def turnsOf (calls : Nat) (is : List Nat) : List (Fin calls) :=
  is.filterMap fun i => if h : i < calls then some ⟨i, h⟩ else none

/-- Requests are carried out in the order of the calls that are given. -/
def replay (σ : Course ι β) (is : List ι) : Course ι β := is.foldl serve σ

theorem reaches_serve (σ : Course ι β) (i : ι) : Reaches σ (σ.serve i) := by
  unfold serve
  split
  · exact .refl
  · next hrest => exact .single (.mk hrest .served)

theorem reaches_replay (σ : Course ι β) (is : List ι) : Reaches σ (σ.replay is) := by
  induction is generalizing σ with
  | nil => exact .refl
  | cons i is ih => exact (reaches_serve σ i).trans (ih (σ.serve i))

end Course

/-- Calls under way together with what they hold: the locks of streams, and at most one write that
has begun, on the store as it was then. -/
structure Machine (ι : Type) (β : ι → Type) extends Course ι β where
  holder : Stream → Option ι
  writing : Option (ι × Store)

namespace Machine

variable {ι : Type} {β : ι → Type} [DecidableEq ι]

def start (s : Store) (programs : (i : ι) → Program (β i)) : Machine ι β :=
  ⟨.start s programs, fun _ => none, none⟩

/-- Locks after a reply: a call that is not at its end keeps its locks, with the one it was given,
and a call that has ended gives all back. -/
def locks (m : Machine ι β) (i : ι) (given : Option Stream) (p : Program (β i)) :
    Stream → Option ι := fun stream =>
  if m.holder stream = some i ∨ given = some stream then
    match p with
    | .done _ => none
    | .request _ _ => some i
  else m.holder stream

def wanted? : Step → Option Stream
  | .acquire stream => some stream
  | _ => none

inductive Move (m : Machine ι β) : Machine ι β → Prop
  /-- A request that writes nothing; that for a lock waits until the lock is free. -/
  | read {i : ι} {step : Step} {next : step.Reply → Program (β i)}
      (rest : m.rest i = .request step next) (reads : Scene.isWrite step = false)
      (free : ∀ stream, wanted? step = some stream → m.holder stream = none) :
      Move m
        { toCourse := m.reply i ⟨m.store, step, (m.store.perform step).1, m.store⟩
            (next (m.store.perform step).1)
          holder := m.locks i (wanted? step) (next (m.store.perform step).1)
          writing := m.writing }
  /-- A write begins; the store makes one at a time. -/
  | begin {i : ι} {step : Step} {next : step.Reply → Program (β i)}
      (rest : m.rest i = .request step next) (writes : Scene.isWrite step = true)
      (idle : m.writing = none) : Move m { m with writing := some (i, m.store) }
  /-- A write that was made on the store as it began is committed. -/
  | commit {i : ι} {step : Step} {next : step.Reply → Program (β i)} {s : Store}
      (rest : m.rest i = .request step next) (writing : m.writing = some (i, s)) :
      Move m
        { toCourse := m.reply i ⟨s, step, (s.perform step).1, (s.perform step).2⟩
            (next (s.perform step).1)
          holder := m.locks i none (next (s.perform step).1)
          writing := none }
  /-- A request is refused; if it was a write that had begun, that is rolled back. -/
  | refuse {i : ι} {step : Step} {next : step.Reply → Program (β i)}
      (rest : m.rest i = .request step next) (failure : StoreFailure) :
      Move m
        { toCourse := m.reply i ⟨m.store, step, .error failure, m.store⟩ (next (.error failure))
          holder := m.locks i none (next (.error failure))
          writing := m.writing.filter fun w => w.1 ≠ i }

abbrev Reaches : Machine ι β → Machine ι β → Prop := Relation.ReflTransGen Move

variable {m n : Machine ι β}

/-- The store has not changed since the write under way began. -/
def Current (m : Machine ι β) : Prop := ∀ i s, m.writing = some (i, s) → s = m.store

theorem Move.current (h : Move m n) (hm : m.Current) : n.Current := by
  cases h with
  | read => exact hm
  | begin =>
    intro i s hs
    obtain ⟨-, rfl⟩ := Prod.ext_iff.mp (Option.some.inj hs)
    rfl
  | commit => exact fun _ _ hs => absurd hs nofun
  | refuse => exact fun i s hs => hm i s (Option.eq_some_of_filter_eq_some hs)

theorem Move.simulates (h : Move m n) (hm : m.Current) :
    n.toCourse = m.toCourse ∨ Course.Move m.toCourse n.toCourse := by
  cases h with
  | @read i step next rest reads =>
    have replies : m.store.Replies step (m.store.perform step).1 m.store := by
      have hserved : m.store.Replies step _ _ := .served
      rwa [perform_of_read reads] at hserved
    exact Or.inr (.mk rest replies)
  | begin => exact Or.inl rfl
  | @commit i step next s rest writing =>
    obtain rfl := hm i s writing
    exact Or.inr (.mk rest .served)
  | refuse rest failure => exact Or.inr (.mk rest (.refused failure))

theorem current_of_reaches (h : Reaches m n) (hm : m.Current) : n.Current := by
  induction h with
  | refl => exact hm
  | tail _ h ih => exact h.current ih

/-- Whatever locks and open writes allow can be reached by taking turns. -/
theorem simulates_of_reaches (h : Reaches m n) (hm : m.Current) :
    Course.Reaches m.toCourse n.toCourse := by
  induction h with
  | refl => exact .refl
  | tail hreach hmove ih =>
    rcases hmove.simulates (current_of_reaches hreach hm) with heq | hmove
    · rw [heq]; exact ih
    · exact ih.tail hmove

theorem reaches_start {s : Store} {programs : (i : ι) → Program (β i)}
    (h : Reaches (start s programs) m) :
    Course.Reaches (.start s programs) m.toCourse :=
  simulates_of_reaches h fun _ _ hs => absurd hs nofun

section Serve

variable (m : Machine ι β)

/-- A call does the next thing that it may do: it reads, begins a write or commits it. -/
def serve (i : ι) : Machine ι β :=
  match m.rest i with
  | .done _ => m
  | .request step next =>
    if Scene.isWrite step then
      match m.writing with
      | none => { m with writing := some (i, m.store) }
      | some (j, s) =>
        if j = i then
          { toCourse := m.reply i ⟨s, step, (s.perform step).1, (s.perform step).2⟩
              (next (s.perform step).1)
            holder := m.locks i none (next (s.perform step).1)
            writing := none }
        else m
    else if (wanted? step).all fun stream => (m.holder stream).isNone then
      { toCourse := m.reply i ⟨m.store, step, (m.store.perform step).1, m.store⟩
          (next (m.store.perform step).1)
        holder := m.locks i (wanted? step) (next (m.store.perform step).1)
        writing := m.writing }
    else m

/-- Calls are served in the order in which they are given. -/
def replay (is : List ι) : Machine ι β := is.foldl serve m

theorem reaches_serve (i : ι) : Reaches m (m.serve i) := by
  unfold serve
  split
  · exact .refl
  next step next hrest =>
  split
  · next hwrite =>
    split
    · next hidle => exact .single (.begin hrest hwrite hidle)
    next j s hwriting =>
    split
    · next hj => exact .single (.commit hrest (hj ▸ hwriting))
    · exact .refl
  next hread =>
  split
  · next hfree =>
    refine .single (.read hrest (Bool.eq_false_iff.mpr hread) fun stream hstream => ?_)
    rw [hstream] at hfree
    exact Option.isNone_iff_eq_none.mp hfree
  · exact .refl

theorem reaches_replay (is : List ι) : Reaches m (m.replay is) := by
  induction is generalizing m with
  | nil => exact .refl
  | cons i is ih => exact (reaches_serve m i).trans (ih (m.serve i))

end Serve

end Machine

def firstStream : Stream := ⟨.ofNat 1, .ofNat 3, ""⟩

/-- A call for the first number of a stream. -/
def firstCall : Job :=
  { call :=
      { caller := { tenant := some (.ofNat 1) }
        now := default
        fresh := .ofNat 2 }
    request := .generateNumber (.ofNat 3) "" }

def midyear : Time.Instant := { (default : Time.Instant) with second := 1749983400 }

def contestedCounter (id : Id) (year : Option Int) : Counter :=
  { id := id
    tenant := firstStream.tenant
    documentType := firstStream.documentType
    series := firstStream.series
    year := year
    value := 7
    settings := {}
    created := ⟨midyear, ""⟩
    updated := ⟨midyear, ""⟩
    retired := none }

def contestedCounters : List Counter :=
  [contestedCounter (.ofNat 4) none, contestedCounter (.ofNat 5) (some 2024)]

def contestedDraft : Document :=
  { id := .ofNat 2
    tenant := firstStream.tenant
    status := .draft
    number := none
    party := none
    documentType := some firstStream.documentType
    lines := []
    closedAt := none
    version := 1
    created := ⟨midyear, ""⟩
    updated := ⟨midyear, ""⟩ }

/-- A draft, and two counters of one stream that are not of the year. -/
def contested : Store :=
  { counters := contestedCounters.map .encode, documents := [.encode contestedDraft] }

theorem lawful_contested : contested.Lawful :=
  ⟨⟨by decide, by decide⟩, by decide⟩

theorem rows_contested :
    CounterRow.decodeAll (contested.streamRows firstStream) = .ok contestedCounters :=
  rfl

def contestedJob (request : Request) : Job :=
  { call :=
      { caller := { tenant := some firstStream.tenant }
        now := midyear
        fresh := .ofNat 6 }
    request := request }

/-- A call a year later. -/
def Job.nextYear (job : Job) : Job :=
  { job with call.now.second := job.call.now.second + 365 * 86400 }

end Docket
