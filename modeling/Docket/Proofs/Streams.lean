import Docket.Proofs.Guarded
import Docket.Proofs.Motion
import Docket.Proofs.Portion
import Docket.Proofs.Turns

/-! # Streams by themselves

The rows of all streams are in one table. But what a call for a number does depends on the rows of
its own stream only, and on whether the identifier that was made for it is in use; and it leaves the
rows of other streams as they are. So calls for numbers of other streams might as well not be there,
and calls for numbers of two streams may change places.
-/

namespace Docket

open Store Issuing Simulation

namespace Store

variable {s t : Store} {a : Allocation} {c : Counter} {stream : Stream} {id : Id}

/-- The rows of a stream in the order of the table, the retired ones with them. -/
def rowsOf (s : Store) (stream : Stream) : List CounterRow :=
  s.counters.filter fun r => r.stream = stream

def hasCounter (s : Store) (id : Id) : Bool := s.counters.any fun r => decide (r.id = id)

theorem streamRows_of_rowsOf (h : s.rowsOf stream = t.rowsOf stream) :
    s.streamRows stream = t.streamRows stream := by
  have hlive : ∀ u : Store, (u.counters.filter fun r => r.stream = stream ∧ r.isLive)
      = (u.rowsOf stream).filter fun r => decide (r.stream = stream ∧ r.isLive) := fun u =>
    (filter_filter_of_imp fun r _ hr => decide_eq_true (of_decide_eq_true hr).1).symm
  rw [streamRows, streamRows, hlive s, hlive t, h]

theorem isTaken_of_rowsOf (h : s.rowsOf stream = t.rowsOf stream) {key : Stream × Int}
    (hkey : key.1 = stream) : s.isTaken key id = t.isTaken key id := by
  have hrows : ∀ u : Store, (u.rowsOf stream).any
      (fun r => decide (r.isLive ∧ r.liveKey = key ∧ r.id ≠ id)) = u.isTaken key id := fun u =>
    any_filter_of_imp fun r _ hr =>
      decide_eq_true ((congrArg Prod.fst (of_decide_eq_true hr).2.1).trans hkey)
  rw [← hrows s, ← hrows t, h]

theorem addCounter_of_rowsOf {r : CounterRow} (h : s.rowsOf r.stream = t.rowsOf r.stream)
    (hid : s.hasCounter r.id = t.hasCounter r.id) :
    (s.addCounter r).map (fun u => u.rowsOf r.stream)
      = (t.addCounter r).map fun u => u.rowsOf r.stream := by
  have hrows : ∀ u : Store, (u.rowsOf r.stream).any
      (fun q => decide (q.isLive ∧ q.liveKey = r.liveKey))
        = u.counters.any fun q => decide (q.isLive ∧ q.liveKey = r.liveKey) := fun u =>
    any_filter_of_imp fun q _ hq => decide_eq_true (congrArg Prod.fst (of_decide_eq_true hq).2)
  have hkeys := (hrows s).symm.trans ((congrArg (List.any · _) h).trans (hrows t))
  unfold hasCounter at hid
  simp only [addCounter, hkeys, hid]
  split_ifs
  · rfl
  · rfl
  · simp only [Except.map, rowsOf, List.filter_append] at h ⊢
    rw [h]

theorem rowsOf_changeCounter {f : CounterRow → CounterRow}
    (hf : ∀ r ∈ s.counters, r.id = id → (f r).stream = r.stream) :
    (s.changeCounter id f).rowsOf stream
      = (s.rowsOf stream).map fun r => if r.id = id then f r else r := by
  simp only [rowsOf, changeCounter, List.filter_map]
  refine congrArg _ (List.filter_congr fun r hr => ?_)
  rw [Function.comp_apply]
  split
  · next h => rw [hf r hr h]
  · rfl

theorem map_advance_of_none {counters : List Counter}
    (hrows : CounterRow.decodeAll (s.streamRows a.stream) = .ok counters)
    (hselect : select? counters a.year = none) :
    (s.advance a).map (fun x => (x.1, x.2.rowsOf a.stream))
      = ((s.addCounter (.encode a.firstCounter)).map fun t => t.rowsOf a.stream) >>= fun rows =>
        (lift (CounterRow.encode a.firstCounter).decode).map fun c => (c, rows) := by
  rw [advance_of_none hrows hselect]
  cases s.addCounter (.encode a.firstCounter) with
  | error f => rfl
  | ok t => cases lift (CounterRow.encode a.firstCounter).decode <;> rfl

/-- What is left of the stream by an allocation from a counter. -/
theorem Keyed.rowsOf_next (hs : s.Keyed) {counters : List Counter}
    (hrows : CounterRow.decodeAll (s.streamRows a.stream) = .ok counters) (hc : c ∈ counters) :
    (s.changeCounter c.id fun _ => .encode (a.next c)).rowsOf stream
      = (s.rowsOf stream).map fun r => if r.id = c.id then .encode (a.next c) else r := by
  refine rowsOf_changeCounter fun r hr hid => ?_
  rw [hs.counter_eq hr (mem_of_rows hrows hc).1 hid]
  exact Allocation.next_stream a c

/-- An allocation depends on the rows of its stream, and on whether the identifier is in use that
was made for it. -/
theorem Keyed.advance_of_rowsOf (hs : s.Keyed) (ht : t.Keyed)
    (h : s.rowsOf a.stream = t.rowsOf a.stream)
    (hid : s.hasCounter a.fresh = t.hasCounter a.fresh) :
    (s.advance a).map (fun x => (x.1, x.2.rowsOf a.stream))
      = (t.advance a).map fun x => (x.1, x.2.rowsOf a.stream) := by
  have hread := congrArg CounterRow.decodeAll (streamRows_of_rowsOf h)
  cases hrows : CounterRow.decodeAll (s.streamRows a.stream) with
  | error f =>
    rw [hrows] at hread
    simp only [advance, hrows, ← hread, lift, bind, Except.bind, Except.map]
  | ok counters =>
    rw [hrows] at hread
    cases hselect : select? counters a.year with
    | none =>
      have hadd : (s.addCounter (.encode a.firstCounter)).map _ = _ :=
        addCounter_of_rowsOf (r := .encode a.firstCounter) h hid
      rw [map_advance_of_none hrows hselect, map_advance_of_none hread.symm hselect]
      exact congrArg (· >>= _) hadd
    | some c =>
      have hc := mem_of_select? hselect
      have hstream : (a.next c).stream = a.stream :=
        (Allocation.next_stream a c).trans (mem_of_rows hrows hc).2.1
      rw [hs.advance_of_some hrows hselect, ht.advance_of_some hread.symm hselect,
        isTaken_of_rowsOf h hstream]
      split_ifs
      · rfl
      · cases lift (CounterRow.encode (a.next c)).decode with
        | error f => rfl
        | ok d =>
          simp only [Except.map, hs.rowsOf_next hrows hc, ht.rowsOf_next hread.symm hc, h]
      · rfl

theorem hasCounter_eq_true_iff : s.hasCounter id = true ↔ ∃ r ∈ s.counters, r.id = id := by
  simp only [hasCounter, List.any_eq_true, decide_eq_true_eq]

namespace Advances

theorem rowsOf_of_ne (h : s.Advances a c t) (hs : s.Keyed) (hne : stream ≠ a.stream) :
    t.rowsOf stream = s.rowsOf stream := by
  cases h with
  | first =>
    have hother : decide ((CounterRow.encode a.firstCounter).stream = stream) = false :=
      decide_eq_false fun h => hne h.symm
    simp only [rowsOf, List.filter_append, List.filter_cons, hother, List.filter_nil]
    exact List.append_nil _
  | @next counters d rows selected =>
    obtain ⟨hd, hstream, -⟩ := mem_of_rows rows (mem_of_select? selected)
    have hother : ∀ r ∈ s.rowsOf stream, r.id ≠ d.id := by
      intro r hr hid
      obtain ⟨hr, hrs⟩ := List.mem_filter.mp hr
      rw [hs.counter_eq hr hd hid, decide_eq_true_eq] at hrs
      exact hne (hrs.symm.trans hstream)
    rw [hs.rowsOf_next rows (mem_of_select? selected)]
    exact (List.map_congr_left fun r hr => if_neg (hother r hr)).trans (List.map_id' _)

theorem hasCounter_eq (h : s.Advances a c t) (id : Id) :
    t.hasCounter id = (decide (c.id = id) || s.hasCounter id) := by
  rw [Bool.eq_iff_iff, Bool.or_eq_true, hasCounter_eq_true_iff, hasCounter_eq_true_iff,
    decide_eq_true_eq]
  constructor
  · rintro ⟨r, hr, rfl⟩
    rcases h.mem_counters.mp hr with rfl | ⟨hr, -⟩
    · exact Or.inl rfl
    · exact Or.inr ⟨r, hr, rfl⟩
  · rintro (rfl | ⟨r, hr, rfl⟩)
    · exact ⟨.encode c, h.mem_counters.mpr (Or.inl rfl), rfl⟩
    · by_cases hid : r.id = c.id
      · exact ⟨.encode c, h.mem_counters.mpr (Or.inl rfl), hid.symm⟩
      · exact ⟨r, h.mem_counters.mpr (Or.inr ⟨hr, hid⟩), rfl⟩

theorem hasCounter_or_fresh (h : s.Advances a c t) : s.hasCounter c.id = true ∨ c.id = a.fresh := by
  cases h with
  | first => exact Or.inr rfl
  | next rows selected =>
    have hd := (mem_of_rows rows (mem_of_select? selected)).1
    exact Or.inl (hasCounter_eq_true_iff.mpr ⟨_, hd, (Allocation.next_id _ _).symm⟩)

theorem hasCounter_of_ne (h : s.Advances a c t) (hne : id ≠ a.fresh) :
    t.hasCounter id = s.hasCounter id := by
  rw [h.hasCounter_eq]
  by_cases hid : c.id = id
  · rcases h.hasCounter_or_fresh with hused | hfresh
    · rw [← hid, hused, Bool.or_true]
    · exact absurd (hid.symm.trans hfresh) hne
  · rw [decide_eq_false hid, Bool.false_or]

end Advances

theorem Keyed.rowsOf_allocate_of_ne (hs : s.Keyed) (hne : stream ≠ a.stream) :
    (s.perform (.allocate a)).2.rowsOf stream = s.rowsOf stream :=
  commit_induction (P := fun t => t.rowsOf stream = s.rowsOf stream) rfl fun _ _ h =>
    (hs.advance_eq_ok_iff.mp h).rowsOf_of_ne hs hne

theorem Keyed.tables_allocate (hs : s.Keyed) :
    { (s.perform (.allocate a)).2 with counters := [] } = { s with counters := [] } :=
  commit_induction (P := fun t => { t with counters := [] } = { s with counters := [] }) rfl
    fun _ _ h => congrArg (fun u : Store => { u with counters := [] })
      (hs.advance_eq_ok_iff.mp h).tables

theorem Keyed.hasCounter_allocate (hs : s.Keyed) (id : Id) :
    (s.perform (.allocate a)).2.hasCounter id
      = (((s.perform (.allocate a)).1.toOption.any fun c : Counter => decide (c.id = id))
        || s.hasCounter id) := by
  rw [perform]
  cases h : s.advance a with
  | error f => rfl
  | ok x => exact (hs.advance_eq_ok_iff.mp h).hasCounter_eq id

theorem Keyed.hasCounter_allocate_of_ne (hs : s.Keyed) (hne : id ≠ a.fresh) :
    (s.perform (.allocate a)).2.hasCounter id = s.hasCounter id :=
  commit_induction (P := fun t => t.hasCounter id = s.hasCounter id) rfl fun _ _ h =>
    (hs.advance_eq_ok_iff.mp h).hasCounter_of_ne hne

theorem Keyed.allocate_of_rowsOf (hs : s.Keyed) (ht : t.Keyed)
    (h : s.rowsOf a.stream = t.rowsOf a.stream)
    (hid : s.hasCounter a.fresh = t.hasCounter a.fresh) :
    (s.perform (.allocate a)).1 = (t.perform (.allocate a)).1 ∧
      (s.perform (.allocate a)).2.rowsOf a.stream
        = (t.perform (.allocate a)).2.rowsOf a.stream := by
  have hadvance := hs.advance_of_rowsOf ht h hid
  rw [perform, perform]
  cases hs' : s.advance a <;> cases ht' : t.advance a <;> rw [hs', ht'] at hadvance
  · exact ⟨congrArg Except.error (Except.error.inj hadvance), h⟩
  · cases hadvance
  · cases hadvance
  · obtain ⟨hreply, hrows⟩ := Prod.ext_iff.mp (Except.ok.inj hadvance)
    exact ⟨congrArg Except.ok hreply, hrows⟩

/-- Stores with the same rows of each stream, whatever their order among streams, that are the same
but for that. -/
structure Alike (s t : Store) : Prop where
  rows : ∀ stream, s.rowsOf stream = t.rowsOf stream
  tables : { s with counters := [] } = { t with counters := [] }

theorem Alike.hasCounter_eq (h : s.Alike t) (id : Id) : s.hasCounter id = t.hasCounter id := by
  have hle : ∀ u v : Store, (∀ stream, u.rowsOf stream = v.rowsOf stream) →
      u.hasCounter id = true → v.hasCounter id = true := by
    intro u v hrows hu
    obtain ⟨r, hr, hid⟩ := hasCounter_eq_true_iff.mp hu
    have hmem : r ∈ v.rowsOf r.stream :=
      hrows r.stream ▸ List.mem_filter.mpr ⟨hr, decide_eq_true rfl⟩
    exact hasCounter_eq_true_iff.mpr ⟨r, (List.mem_filter.mp hmem).1, hid⟩
  exact Bool.eq_iff_iff.mpr ⟨hle s t h.rows, hle t s fun stream => (h.rows stream).symm⟩

theorem Alike.perm (h : s.Alike t) : s.counters.Perm t.counters := by
  rw [List.perm_iff_count]
  intro r
  have hcount : ∀ u : Store, (u.rowsOf r.stream).count r = u.counters.count r := fun u =>
    List.count_filter (decide_eq_true rfl)
  rw [← hcount s, ← hcount t, h.rows]

end Store

structure Draw where
  call : Call
  documentType : Id
  series : String

/-- The stream that a call is for; none without a tenant. -/
def Draw.stream? (d : Draw) : Option Stream :=
  d.call.caller.tenant.map fun tenant => ⟨tenant, d.documentType, d.series⟩

namespace Service

def draw (service : Service) (d : Draw) (s : Store) : Except Failure (Outcome Number) × Store :=
  (service.generateNumber d.call d.documentType d.series).run.run s

/-- Calls for numbers, one after another, with their answers, and what they leave of the store. -/
def drawAll (service : Service) :
    List Draw → Store → List (Draw × Except Failure (Outcome Number)) × Store
  | [], s => ([], s)
  | d :: draws, s =>
    let (answer, t) := service.draw d s
    let (answers, u) := service.drawAll draws t
    ((d, answer) :: answers, u)

variable {service : Service} {s t : Store} {d : Draw}

theorem run_generateNumber_cases (service : Service) (d : Draw) :
    (∃ f, (service.generateNumber d.call d.documentType d.series).run = .done (.error f)) ∨
      ∃ tenant, d.call.caller.tenant = some tenant ∧ d.call.caller.cancelled = false ∧
        checkDocumentType d.documentType = .ok () := by
  cases hscope : d.call.caller.tenant with
  | none =>
    refine Or.inl ⟨.error .missingScope, ?_⟩
    unfold generateNumber scope
    rw [hscope]
    rfl
  | some tenant =>
    have htenant : scope d.call = pure tenant := by rw [scope, hscope]
    cases hcheck : checkDocumentType d.documentType with
    | error v =>
      refine Or.inl ⟨.error v.error, ?_⟩
      unfold generateNumber
      rw [htenant, hcheck]
      rfl
    | ok =>
      cases hcancelled : d.call.caller.cancelled with
      | true =>
        refine Or.inl ⟨.error .cancelled, ?_⟩
        unfold generateNumber start
        rw [htenant, hcheck, hcancelled]
        rfl
      | false => exact Or.inr ⟨tenant, rfl, rfl, rfl⟩

/-- What a call for a number answers to the reply to its allocation. -/
def drawn (service : Service) (call : Call) (stream : Stream) :
    Except StoreFailure Counter → Except Failure (Outcome Number)
  | .ok c => .ok ⟨c.number, [.numberAllocated (.of stream.tenant c.number (service.stamp call))]⟩
  | .error f => .error f.toFailure

theorem draw_cases (service : Service) (d : Draw) :
    (∃ f, ∀ s, service.draw d s = (.error f, s)) ∨
      ∃ a : Allocation, d.stream? = some a.stream ∧ a.fresh = d.call.fresh ∧ ∀ s : Store,
        service.draw d s = (service.drawn d.call a.stream (s.perform (.allocate a)).1,
          (s.perform (.allocate a)).2) := by
  rcases run_generateNumber_cases service d with ⟨f, hf⟩ | ⟨tenant, htenant, hgoing, htype⟩
  · refine Or.inl ⟨f, fun s => ?_⟩
    rw [draw, hf]
    rfl
  · let a := service.allocation d.call ⟨tenant, d.documentType, d.series⟩
    refine Or.inr ⟨a, congrArg (Option.map _) htenant, rfl, fun s => ?_⟩
    have hfailed : ∀ f, (s.perform (.allocate a)).1 = .error f → (s.perform (.allocate a)).2 = s :=
      fun f hf => (commit_error hf).2
    rw [draw, run_generateNumber htenant hgoing htype, Program.run_request]
    refine (Program.run_retrying_bind hfailed _ _).trans ?_
    generalize s.perform (.allocate a) = reply
    obtain ⟨_ | _, _⟩ := reply <;> rfl

variable (hs : s.Keyed) (ht : t.Keyed) {stream : Stream} {id : Id}

include hs

theorem keyed_draw (d : Draw) : (service.draw d s).2.Keyed := by
  rcases draw_cases service d with ⟨f, hf⟩ | ⟨a, -, -, hd⟩
  · rw [hf]
    exact hs
  · rw [hd]
    exact Replies.keyed .served hs

theorem tables_draw (d : Draw) :
    { (service.draw d s).2 with counters := [] } = { s with counters := [] } := by
  rcases draw_cases service d with ⟨f, hf⟩ | ⟨a, -, -, hd⟩
  · rw [hf]
  · rw [hd]
    exact hs.tables_allocate

theorem rowsOf_draw_of_ne (h : d.stream? ≠ some stream) :
    (service.draw d s).2.rowsOf stream = s.rowsOf stream := by
  rcases draw_cases service d with ⟨f, hf⟩ | ⟨a, hstream, -, hd⟩
  · rw [hf]
  · rw [hd]
    exact hs.rowsOf_allocate_of_ne fun heq => h (hstream.trans (congrArg some heq.symm))

theorem hasCounter_draw_of_ne (h : id ≠ d.call.fresh) :
    (service.draw d s).2.hasCounter id = s.hasCounter id := by
  rcases draw_cases service d with ⟨f, hf⟩ | ⟨a, -, hfresh, hd⟩
  · rw [hf]
  · rw [hd]
    exact hs.hasCounter_allocate_of_ne (hfresh ▸ h)

include ht

/-- A call for a number depends on the rows of its stream, and on whether the identifier is in use
that was made for it. -/
theorem draw_of_rowsOf (service : Service)
    (hrows : ∀ stream ∈ d.stream?, s.rowsOf stream = t.rowsOf stream)
    (hid : s.hasCounter d.call.fresh = t.hasCounter d.call.fresh) :
    (service.draw d s).1 = (service.draw d t).1 ∧
      (∀ stream ∈ d.stream?, (service.draw d s).2.rowsOf stream
        = (service.draw d t).2.rowsOf stream) ∧
      ∀ id, s.hasCounter id = t.hasCounter id →
        (service.draw d s).2.hasCounter id = (service.draw d t).2.hasCounter id := by
  rcases draw_cases service d with ⟨f, hf⟩ | ⟨a, hstream, hfresh, hd⟩
  · rw [hf, hf]
    exact ⟨rfl, hrows, fun _ h => h⟩
  · rw [← hfresh] at hid
    obtain ⟨hreply, hafter⟩ := hs.allocate_of_rowsOf ht (hrows a.stream hstream) hid
    rw [hd, hd]
    refine ⟨congrArg (service.drawn d.call a.stream) hreply, fun stream h => ?_, fun id h => ?_⟩
    · obtain rfl := Option.some.inj (hstream.symm.trans h)
      exact hafter
    · rw [hs.hasCounter_allocate, ht.hasCounter_allocate, hreply, h]

end Service

namespace Draw

/-- Calls for numbers of different streams have identifiers of their own for what they may add. -/
def Apart (draws : List Draw) : Prop :=
  draws.Pairwise fun d e => d.stream? ≠ e.stream? → d.call.fresh ≠ e.call.fresh

end Draw

namespace Service

variable {service : Service} {s t : Store} {d e : Draw} {draws : List Draw}

theorem drawAll_cons (service : Service) (d : Draw) (draws : List Draw) (s : Store) :
    service.drawAll (d :: draws) s
      = ((d, (service.draw d s).1) :: (service.drawAll draws (service.draw d s).2).1,
        (service.drawAll draws (service.draw d s).2).2) :=
  rfl

/-- Calls for numbers of one stream, or of none, do not notice others in between. -/
theorem drawAll_filter (hs : s.Keyed) (ht : t.Keyed) (hdraws : Draw.Apart draws)
    {stream? : Option Stream} (hrows : ∀ stream ∈ stream?, s.rowsOf stream = t.rowsOf stream)
    (hids : ∀ d ∈ draws, d.stream? = stream? →
      s.hasCounter d.call.fresh = t.hasCounter d.call.fresh) :
    (service.drawAll draws s).1.filter (fun x => x.1.stream? = stream?)
      = (service.drawAll (draws.filter fun d => d.stream? = stream?) t).1 := by
  induction draws generalizing s t with
  | nil => rfl
  | cons d draws ih =>
    obtain ⟨hd, hdraws⟩ := List.pairwise_cons.mp hdraws
    have hids' := fun e he => hids e (List.mem_cons_of_mem d he)
    by_cases hstream : d.stream? = stream?
    · have hpos : decide (d.stream? = stream?) = true := decide_eq_true hstream
      rw [← hstream] at hrows
      obtain ⟨hanswer, hrows', hids''⟩ :=
        draw_of_rowsOf hs ht service hrows (hids d List.mem_cons_self hstream)
      rw [hstream] at hrows'
      rw [drawAll_cons, List.filter_cons, List.filter_cons, if_pos hpos, if_pos hpos, drawAll_cons,
        hanswer]
      exact congrArg _ (ih (keyed_draw hs d) (keyed_draw ht d) hdraws hrows' fun e he hes =>
        hids'' _ (hids' e he hes))
    · have hneg : ¬ decide (d.stream? = stream?) = true := fun h => hstream (of_decide_eq_true h)
      rw [drawAll_cons, List.filter_cons, List.filter_cons, if_neg hneg, if_neg hneg]
      refine ih (keyed_draw hs d) ht hdraws (fun stream h => ?_) fun e he hes => ?_
      · exact (rowsOf_draw_of_ne hs fun hd => hstream (hd.trans h.symm)).trans (hrows stream h)
      · have hne : e.call.fresh ≠ d.call.fresh := fun heq =>
          hd e he (fun hde => hstream (hde.trans hes)) heq.symm
        exact (hasCounter_draw_of_ne hs hne).trans (hids' e he hes)

/-- Stores with the same rows of each stream answer calls for numbers alike, and stay so. -/
theorem drawAll_alike (service : Service) (hs : s.Keyed) (ht : t.Keyed) (h : s.Alike t)
    (draws : List Draw) :
    (service.drawAll draws s).1 = (service.drawAll draws t).1 ∧
      (service.drawAll draws s).2.Alike (service.drawAll draws t).2 := by
  induction draws generalizing s t with
  | nil => exact ⟨rfl, h⟩
  | cons d draws ih =>
    obtain ⟨hanswer, hrows, -⟩ := draw_of_rowsOf (d := d) hs ht service
      (fun stream _ => h.rows stream) (h.hasCounter_eq _)
    have hafter : (service.draw d s).2.Alike (service.draw d t).2 := by
      refine ⟨fun stream => ?_, ?_⟩
      · by_cases hstream : d.stream? = some stream
        · exact hrows stream hstream
        · rw [rowsOf_draw_of_ne hs hstream, rowsOf_draw_of_ne ht hstream, h.rows]
      · rw [tables_draw hs, tables_draw ht, h.tables]
    obtain ⟨hanswers, hlast⟩ := ih (keyed_draw hs d) (keyed_draw ht d) hafter
    rw [drawAll_cons, drawAll_cons, hanswer, hanswers]
    exact ⟨rfl, hlast⟩

theorem draw_swap (service : Service) (hs : s.Keyed) (hstreams : d.stream? ≠ e.stream?)
    (hfresh : d.call.fresh ≠ e.call.fresh) :
    (service.draw d (service.draw e s).2).1 = (service.draw d s).1 ∧
      (service.draw e (service.draw d s).2).1 = (service.draw e s).1 ∧
      (service.draw e (service.draw d s).2).2.Alike (service.draw d (service.draw e s).2).2 := by
  have hother : ∀ stream ∈ d.stream?, e.stream? ≠ some stream := fun stream h he =>
    hstreams (h.trans he.symm)
  have hother' : ∀ stream ∈ e.stream?, d.stream? ≠ some stream := fun stream h hd =>
    hstreams (hd.trans h.symm)
  obtain ⟨hd, hdrows, -⟩ := draw_of_rowsOf (keyed_draw hs e) hs service
    (fun stream h => rowsOf_draw_of_ne hs (hother stream h)) (hasCounter_draw_of_ne hs hfresh)
  obtain ⟨he, herows, -⟩ := draw_of_rowsOf (keyed_draw hs d) hs service
    (fun stream h => rowsOf_draw_of_ne hs (hother' stream h)) (hasCounter_draw_of_ne hs hfresh.symm)
  refine ⟨hd, he, fun stream => ?_, ?_⟩
  · by_cases hds : d.stream? = some stream
    · rw [hdrows stream hds, rowsOf_draw_of_ne (keyed_draw hs d) (hother stream hds)]
    · rw [rowsOf_draw_of_ne (keyed_draw hs e) hds]
      by_cases hes : e.stream? = some stream
      · exact herows stream hes
      · rw [rowsOf_draw_of_ne (keyed_draw hs d) hes, rowsOf_draw_of_ne hs hds,
          rowsOf_draw_of_ne hs hes]
  · rw [tables_draw (keyed_draw hs d), tables_draw hs, tables_draw (keyed_draw hs e),
      tables_draw hs]

theorem drawAll_append (service : Service) (draws others : List Draw) (s : Store) :
    service.drawAll (draws ++ others) s
      = ((service.drawAll draws s).1 ++ (service.drawAll others (service.drawAll draws s).2).1,
        (service.drawAll others (service.drawAll draws s).2).2) := by
  induction draws generalizing s with
  | nil => rfl
  | cons d draws ih => rw [List.cons_append, drawAll_cons, ih, drawAll_cons]; rfl

theorem fst_drawAll (service : Service) (draws : List Draw) (s : Store) :
    (service.drawAll draws s).1.map Prod.fst = draws := by
  induction draws generalizing s with
  | nil => rfl
  | cons d draws ih => exact congrArg _ (ih _)

theorem keyed_drawAll (service : Service) (hs : s.Keyed) (draws : List Draw) :
    (service.drawAll draws s).2.Keyed := by
  induction draws generalizing s with
  | nil => exact hs
  | cons d draws ih => exact ih (keyed_draw hs d)

/-- Calls for numbers of a stream are answered as if there were no calls for numbers of others, and
neighbouring calls for numbers of two streams may change places: all answers stay, and in the end
the same rows are stored. -/
theorem streams_independent (hs : s.Keyed) (hdraws : Draw.Apart draws) :
    (∀ stream?, (service.drawAll draws s).1.filter (fun x => x.1.stream? = stream?)
        = (service.drawAll (draws.filter fun d => d.stream? = stream?) s).1) ∧
      ∀ before d e after, draws = before ++ d :: e :: after → d.stream? ≠ e.stream? →
        ∃ xs x y ys, xs.map Prod.fst = before ∧
          (service.drawAll draws s).1 = xs ++ (d, x) :: (e, y) :: ys ∧
          (service.drawAll (before ++ e :: d :: after) s).1 = xs ++ (e, y) :: (d, x) :: ys ∧
          (service.drawAll draws s).2.counters.Perm
            (service.drawAll (before ++ e :: d :: after) s).2.counters ∧
          { (service.drawAll draws s).2 with counters := [] }
            = { (service.drawAll (before ++ e :: d :: after) s).2 with counters := [] } := by
  refine ⟨fun stream? => drawAll_filter hs hs hdraws (fun _ _ => rfl) fun _ _ _ => rfl, ?_⟩
  rintro before d e after rfl hstreams
  have hfresh : d.call.fresh ≠ e.call.fresh := by
    obtain ⟨hd, -⟩ := List.pairwise_cons.mp (List.pairwise_append.mp hdraws).2.1
    exact hd e List.mem_cons_self hstreams
  have hkeyed := keyed_drawAll service hs before
  generalize hbefore : service.drawAll before s = r at hkeyed
  obtain ⟨hd, he, halike⟩ := draw_swap service hkeyed hstreams hfresh
  obtain ⟨hafter, hlast⟩ := drawAll_alike service (keyed_draw (keyed_draw hkeyed d) e)
    (keyed_draw (keyed_draw hkeyed e) d) halike after
  rw [drawAll_append, drawAll_append, hbefore, drawAll_cons, drawAll_cons, drawAll_cons,
    drawAll_cons, hd, he, hafter]
  exact ⟨r.1, _, _, _, hbefore ▸ fst_drawAll service before s, rfl, rfl, hlast.perm, hlast.tables⟩

def alternating : List Draw :=
  [⟨firstCall.call, .ofNat 3, ""⟩, ⟨{ firstCall.call with fresh := .ofNat 4 }, .ofNat 3, "B"⟩,
    ⟨{ firstCall.call with fresh := .ofNat 5 }, .ofNat 3, ""⟩]

theorem streams_independent_alternating :
    (drawAll {} alternating {}).1.map (fun x => x.2.toOption.map fun o => o.value.value)
        = [some 1, some 1, some 2] ∧
      (drawAll {} alternating {}).1.filter (fun x => x.1.stream? = some firstStream)
        = (drawAll {} (alternating.filter fun d => d.stream? = some firstStream) {}).1 := by
  have hdraws : Draw.Apart alternating := by
    unfold Draw.Apart
    decide +kernel
  exact ⟨by decide +kernel, (streams_independent lawful_empty.toKeyed hdraws).1 _⟩

end Service

end Docket
