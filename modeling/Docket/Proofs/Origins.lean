import Docket.Proofs.Documents

/-! # Where rows come from

Each row of a table after a request was there before, or is one that the request wrote. Of the rows
of documents it is enough to know what no request changes.
-/

namespace Docket

open Store Issuing Simulation

namespace Store

variable {s t : Store} {step : Step} {reply : step.Reply} {r q : CounterRow}

/-- Where a row of a counter that is there after a request comes from. -/
inductive CounterRow.Origin (s : Store) (step : Step) (q : CounterRow) : Prop
  | kept (stored : q ∈ s.counters)
  | inserted {c : Counter} (request : step = .insertCounter c) (row : q = .encode c)
  | configured {c : Counter} {r : CounterRow} (request : step = .updateSettings c)
      (stored : r ∈ s.counters) (row : q = r.configured c)
  | retired {tenant id : Id} {stamp : Stamp} {r : CounterRow}
      (request : step = .retireCounter tenant id stamp) (stored : r ∈ s.counters)
      (row : q = r.retire stamp)
  | first {a : Allocation} (request : Scene.allocation? step = some a)
      (row : q = .encode a.firstCounter)
  | next {a : Allocation} {c : Counter} (request : Scene.allocation? step = some a)
      (stored : .encode c ∈ s.counters) (stream : c.stream = a.stream)
      (row : q = .encode (a.next c))

theorem Keyed.origin (hs : s.Keyed) (hq : q ∈ (s.perform step).2.counters) : q.Origin s step := by
  cases hstep : Scene.allocation? step with
  | some a =>
    have heffect := hs.effect hstep
    generalize step.issue? (s.perform step).1 = issue at heffect
    generalize (s.perform step).2 = t at heffect hq
    cases heffect with
    | none => exact .kept hq
    | some advances counters =>
      rw [counters, advances.mem_counters] at hq
      rcases hq with rfl | ⟨hq, -⟩
      · cases advances with
        | first => exact .first hstep rfl
        | next rows selected =>
          obtain ⟨hc, hstream, -, -⟩ := mem_of_rows rows (mem_of_select? selected)
          exact .next hstep hc hstream rfl
      · exact .kept hq
  | none =>
    cases step with
    | allocate | assignNumber => cases hstep
    | insertCounter c =>
      simp only [perform, insertCounter] at hq
      cases hadd : s.addCounter (.encode c) with
      | error f =>
        rw [hadd] at hq
        exact .kept hq
      | ok t =>
        obtain ⟨-, -, rfl⟩ := addCounter_eq_ok_iff.mp hadd
        rw [hadd] at hq
        rcases List.mem_append.mp hq with hq | hq
        · exact .kept hq
        · exact .inserted rfl (List.mem_singleton.mp hq)
    | updateSettings c =>
      simp only [perform, updateSettings] at hq
      split at hq
      · exact .kept hq
      · rcases mem_changeCounter.mp hq with ⟨r, hr, -, rfl⟩ | ⟨hq, -⟩
        · exact .configured rfl hr rfl
        · exact .kept hq
    | retireCounter tenant id stamp =>
      simp only [perform, retireCounter] at hq
      split at hq
      · obtain ⟨r, hr, rfl⟩ := List.mem_map.mp hq
        split
        · exact .retired rfl hr rfl
        · exact .kept hr
      · exact .kept hq
    | insertDocument d =>
      exact commit_induction (P := fun t => q ∈ t.counters → q.Origin s _) .kept
        (fun e t h hq => .kept (insertDocument_counters h ▸ hq)) hq
    | applyChange d expected c =>
      exact commit_induction (P := fun t => q ∈ t.counters → q.Origin s _) .kept
        (fun e t h hq => .kept (applyChange_counters h ▸ hq)) hq
    | _ => exact .kept hq

/-- Where a row of a document that is there after a request comes from, but for what may change. -/
inductive DocumentRow.Origin (s : Store) (step : Step) (q : DocumentRow) : Prop
  | kept {r : DocumentRow} (stored : r ∈ s.documents) (id : q.id = r.id)
      (tenant : q.tenant = r.tenant) (documentType : q.documentType = r.documentType)
  | inserted {d : Document} (request : step = .insertDocument d) (row : q = .encode d)

theorem DocumentRow.Origin.of_changeDocument {u : Store} {d : Document} {expected : Int}
    {f : DocumentRow → DocumentRow} {q : DocumentRow} (h : u.changeDocument d expected f = .ok t)
    (hu : u.documents = s.documents) (hq : q ∈ t.documents)
    (hf : ∀ r, (f r).id = r.id ∧ (f r).tenant = r.tenant ∧ (f r).documentType = r.documentType) :
    q.Origin s step := by
  obtain ⟨-, rfl⟩ := changeDocument_eq_ok_iff.mp h
  obtain ⟨r, hr, rfl⟩ := List.mem_map.mp hq
  rw [hu] at hr
  split
  · obtain ⟨hid, htenant, htype⟩ := hf r
    exact .kept hr hid htenant htype
  · exact .kept hr rfl rfl rfl

theorem Keyed.document_origin (hs : s.Keyed) {q : DocumentRow}
    (hq : q ∈ (s.perform step).2.documents) : q.Origin s step := by
  have hkept : q ∈ s.documents → q.Origin s step := fun hq => .kept hq rfl rfl rfl
  cases hstep : step.changesDocuments with
  | false => exact hkept ((hs.agrees_perform hstep).documents ▸ hq)
  | true =>
    cases step with
    | insertDocument d =>
      refine commit_induction (P := fun t => q ∈ t.documents → q.Origin s _) hkept
        (fun e t h hq => ?_) hq
      obtain ⟨-, -, rfl⟩ := insertDocument_eq_ok_iff.mp h
      rcases List.mem_append.mp hq with hq | hq
      · exact hkept hq
      · exact .inserted rfl (List.mem_singleton.mp hq)
    | assignNumber d expected a =>
      refine commit_induction (P := fun t => q ∈ t.documents → q.Origin s _) hkept
        (fun ⟨e, n⟩ t h hq => ?_) hq
      obtain ⟨c, u, hadvance, -, -, hchange⟩ := assignNumber_eq_ok_iff.mp h
      have hu : u.documents = s.documents := by rw [(hs.advance_eq_ok_iff.mp hadvance).tables]
      exact .of_changeDocument hchange hu hq fun r => ⟨rfl, rfl, rfl⟩
    | applyChange d expected c =>
      refine commit_induction (P := fun t => q ∈ t.documents → q.Origin s _) hkept
        (fun e t h hq => ?_) hq
      obtain ⟨u, hchange, -, -, rfl⟩ := applyChange_eq_ok_iff.mp h
      exact .of_changeDocument hchange rfl hq fun r => ⟨rfl, rfl, rfl⟩
    | _ => cases hstep

theorem Replies.origin (h : s.Replies step reply t) (hs : s.Keyed) (hq : q ∈ t.counters) :
    q.Origin s step := by
  cases h with
  | served => exact hs.origin hq
  | refused => exact .kept hq

theorem Replies.document_origin (h : s.Replies step reply t) (hs : s.Keyed) {q : DocumentRow}
    (hq : q ∈ t.documents) : q.Origin s step := by
  cases h with
  | served => exact hs.document_origin hq
  | refused => exact .kept hq rfl rfl rfl

end Store

end Docket
