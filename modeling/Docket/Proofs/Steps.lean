import Docket.Proofs.Advance
import Docket.Simulation.Interference

/-! # What requests do to the store

A request that reads leaves the store alone. A request that begins with an allocation either makes
that allocation and hands out its number, or fails and leaves all as it was. No request makes a
lawful store unlawful.
-/

namespace Docket

open Store Issuing Simulation

namespace Store

variable {s t : Store} {d : Document} {expected : Int}

theorem changeDocument_eq_ok_iff {f : DocumentRow → DocumentRow} :
    s.changeDocument d expected f = .ok t ↔
      (∃ r ∈ s.documents, r.id = d.id ∧ r.tenant = d.tenant ∧ r.version = expected) ∧
        t = { s with
          documents := s.documents.map fun r =>
            if r.id = d.id ∧ r.tenant = d.tenant ∧ r.version = expected then f r else r } := by
  simp only [changeDocument, List.any_eq_true, decide_eq_true_eq]
  split
  · next h =>
    rw [Except.ok.injEq]
    exact ⟨fun ht => ⟨h, ht.symm⟩, fun ht => ht.2.symm⟩
  · next h => exact ⟨fun ht => absurd ht nofun, fun ht => absurd ht.1 h⟩

theorem changeDocument_eq_error_iff {f : DocumentRow → DocumentRow} {e : StoreFailure} :
    s.changeDocument d expected f = .error e ↔
      (∀ r ∈ s.documents, r.id = d.id → r.tenant = d.tenant → r.version ≠ expected) ∧
        e = .stale d.id := by
  simp only [changeDocument, List.any_eq_true, decide_eq_true_eq]
  split
  · next h =>
    obtain ⟨r, hr, hi, ht, hv⟩ := h
    exact ⟨fun he => absurd he nofun, fun he => absurd hv (he.1 r hr hi ht)⟩
  · next h =>
    rw [Except.error.injEq]
    exact ⟨fun he => ⟨fun r hr hi ht hv => h ⟨r, hr, hi, ht, hv⟩, he.symm⟩, fun he => he.2.symm⟩

theorem assignNumber_eq_ok_iff {a : Allocation} {e : Document} {n : Number} :
    s.assignNumber d expected a = .ok ((e, n), t) ↔
      ∃ c u, s.advance a = .ok (c, u) ∧ n = c.number ∧ e = { d with number := some n.formatted } ∧
        u.changeDocument d expected (fun r => r.numbered d n.formatted) = .ok t := by
  unfold assignNumber
  cases hadvance : s.advance a with
  | error f => simp [bind, Except.bind]
  | ok reply =>
    obtain ⟨c, u⟩ := reply
    cases hchange : u.changeDocument d expected fun r => r.numbered d c.number.formatted with
    | error f =>
      simp only [bind, Except.bind, hchange, Except.ok.injEq, Prod.mk.injEq, reduceCtorEq,
        false_iff]
      rintro ⟨_, _, ⟨rfl, rfl⟩, rfl, _, h⟩
      cases hchange.symm.trans h
    | ok v =>
      simp only [bind, Except.bind, hchange, pure, Except.pure, Except.ok.injEq, Prod.mk.injEq]
      constructor
      · rintro ⟨⟨rfl, rfl⟩, rfl⟩
        exact ⟨c, u, ⟨rfl, rfl⟩, rfl, rfl, hchange⟩
      · rintro ⟨_, _, ⟨rfl, rfl⟩, rfl, rfl, h⟩
        exact ⟨⟨rfl, rfl⟩, Except.ok.inj (hchange.symm.trans h)⟩

theorem assignNumber_eq_error_iff {a : Allocation} {f : StoreFailure} :
    s.assignNumber d expected a = .error f ↔
      s.advance a = .error f ∨ ∃ c u, s.advance a = .ok (c, u) ∧
        u.changeDocument d expected (fun r => r.numbered d c.number.formatted) = .error f := by
  unfold assignNumber
  cases hadvance : s.advance a with
  | error g => simp [bind, Except.bind]
  | ok reply =>
    obtain ⟨c, u⟩ := reply
    cases hchange : u.changeDocument d expected fun r => r.numbered d c.number.formatted with
    | error g => simp [bind, Except.bind, hchange]
    | ok v => simp [bind, Except.bind, hchange, pure, Except.pure]

theorem applyChange_eq_ok_iff {c : StatusChange} {e : Document} :
    s.applyChange d expected c = .ok (e, t) ↔
      ∃ u, s.changeDocument d expected (fun r => r.moved d) = .ok u ∧
        (∃ r ∈ u.documents, r.id = c.document) ∧ e = d ∧
        t = { u with changes := u.changes ++ [.encode d.tenant c] } := by
  unfold applyChange
  cases hchange : s.changeDocument d expected fun r => r.moved d with
  | error f => simp [bind, Except.bind]
  | ok u =>
    simp only [bind, Except.bind, Except.ok.injEq, exists_eq_left', List.any_eq_true,
      decide_eq_true_eq]
    split
    · next h =>
      simp only [pure, Except.pure, Except.ok.injEq, Prod.mk.injEq]
      exact ⟨fun ⟨hd, ht⟩ => ⟨h, hd.symm, ht.symm⟩, fun ⟨_, hd, ht⟩ => ⟨hd.symm, ht.symm⟩⟩
    · next h => exact ⟨fun ht => absurd ht nofun, fun ht => absurd ht.1 h⟩

theorem insertDocument_eq_ok_iff {e : Document} :
    s.insertDocument d = .ok (e, t) ↔
      (∀ r ∈ s.documents, r.id ≠ d.id) ∧ e = d ∧
        t = { s with
          documents := s.documents ++ [.encode d]
          lines := s.lines ++ d.lines.map (LineRow.encode d.id) } := by
  simp only [insertDocument, List.any_eq_true, decide_eq_true_eq]
  split
  · next h =>
    obtain ⟨r, hr, hi⟩ := h
    exact ⟨fun ht => absurd ht nofun, fun ht => absurd hi (ht.1 r hr)⟩
  · next h =>
    simp only [not_exists, not_and] at h
    simp only [Except.ok.injEq, Prod.mk.injEq]
    exact ⟨fun ⟨hd, ht⟩ => ⟨h, hd.symm, ht.symm⟩, fun ⟨_, hd, ht⟩ => ⟨hd.symm, ht.symm⟩⟩

theorem commit_ok {α : Type} {x : Except StoreFailure (α × Store)} {a : α}
    (h : (s.commit x).1 = .ok a) : x = .ok (a, (s.commit x).2) := by
  obtain f | ⟨b, u⟩ := x
  · cases h
  · rw [← Except.ok.inj h]
    rfl

theorem commit_error {α : Type} {x : Except StoreFailure (α × Store)} {f : StoreFailure}
    (h : (s.commit x).1 = .error f) : x = .error f ∧ (s.commit x).2 = s := by
  obtain e | ⟨b, u⟩ := x
  · exact ⟨congrArg Except.error (Except.error.inj h), rfl⟩
  · cases h

/-- What holds before a write and after its change holds after it. -/
theorem commit_induction {α : Type} {P : Store → Prop} {x : Except StoreFailure (α × Store)}
    (hs : P s) (hx : ∀ a t, x = .ok (a, t) → P t) : P (s.commit x).2 := by
  obtain f | ⟨a, t⟩ := x
  · exact hs
  · exact hx a t rfl

theorem insertDocument_counters {e : Document} (h : s.insertDocument d = .ok (e, t)) :
    t.counters = s.counters := by
  obtain ⟨-, -, rfl⟩ := insertDocument_eq_ok_iff.mp h
  rfl

theorem applyChange_counters {c : StatusChange} {e : Document}
    (h : s.applyChange d expected c = .ok (e, t)) : t.counters = s.counters := by
  obtain ⟨u, hchange, -, -, rfl⟩ := applyChange_eq_ok_iff.mp h
  obtain ⟨-, rfl⟩ := changeDocument_eq_ok_iff.mp hchange
  rfl

theorem perform_of_read {step : Step} (h : Scene.isWrite step = false) :
    (s.perform step).2 = s := by
  cases step with
  | insertCounter | updateSettings | retireCounter | allocate | insertDocument | assignNumber
  | applyChange => cases h
  | _ => rfl

theorem perform_of_advance_error {step : Step} {a : Allocation} {f : StoreFailure}
    (hstep : Scene.allocation? step = some a) (h : s.advance a = .error f) :
    s.perform step = (.error f, s) := by
  cases step with
  | allocate b =>
    obtain rfl : b = a := Option.some.inj hstep
    exact congrArg s.commit h
  | assignNumber d expected b =>
    obtain rfl : b = a := Option.some.inj hstep
    exact congrArg s.commit (assignNumber_eq_error_iff.mpr (Or.inl h))
  | _ => cases hstep

theorem perform_of_allocation_error {step : Step} {a : Allocation} {f : StoreFailure}
    (hstep : Scene.allocation? step = some a) (h : (s.perform step).1 = .error f) :
    (s.perform step).2 = s := by
  cases step with
  | allocate | assignNumber => exact (commit_error h).2
  | _ => cases hstep

end Store

namespace Step

/-- The number that a request took from a stream, where it took one. -/
def issue? : (step : Step) → step.Reply → Option (Stream × Number)
  | .allocate a, .ok c => some (a.stream, Counter.number c)
  | .assignNumber _ _ a, .ok reply => some (a.stream, Prod.snd (α := Document) reply)
  | _, _ => none

theorem issue?_error (step : Step) (f : StoreFailure) : step.issue? (.error f) = none := by
  cases step <;> rfl

theorem issue?_of_allocation? {step : Step} (h : Scene.allocation? step = none)
    (reply : step.Reply) : step.issue? reply = none := by
  cases step with
  | allocate a => cases h
  | assignNumber d expected a => cases h
  | _ => rfl

theorem write_of_issue? {step : Step} {reply : step.Reply} {issue : Stream × Number}
    (h : step.issue? reply = some issue) :
    Scene.isWrite step = true ∧ reply.isOk = true := by
  cases reply with
  | error f => cases (issue?_error step f).symm.trans h
  | ok a =>
    cases step with
    | allocate | assignNumber => exact ⟨rfl, rfl⟩
    | _ => cases h

end Step

theorem Step.allocation?_of_issue? {step : Step} {reply : step.Reply} {stream : Stream} {n : Number}
    (h : step.issue? reply = some (stream, n)) :
    ∃ a, Scene.allocation? step = some a ∧ a.stream = stream := by
  cases hstep : Scene.allocation? step with
  | none => cases (Step.issue?_of_allocation? hstep reply).symm.trans h
  | some a =>
    refine ⟨a, rfl, ?_⟩
    cases step with
    | allocate b =>
      cases hstep
      cases reply with
      | ok c => exact (Prod.ext_iff.mp (Option.some.inj h)).1
      | error f => cases h
    | assignNumber d expected b =>
      cases hstep
      cases reply with
      | ok c => exact (Prod.ext_iff.mp (Option.some.inj h)).1
      | error f => cases h
    | _ => cases hstep

theorem Simulation.Scene.allocation?_of_read {step : Step} (h : Scene.isWrite step = false) :
    Scene.allocation? step = none := by
  cases step with
  | allocate | assignNumber => cases h
  | _ => rfl

namespace Store

variable {s t u : Store} {step : Step} {a : Allocation}

/-- What an allocation may come to: nothing at all, or a number and an advanced counter. -/
inductive Effect (s : Store) (a : Allocation) : Option (Stream × Number) → Store → Prop
  | none : Effect s a none s
  | some {c : Counter} {t u : Store} (advances : s.Advances a c t)
      (counters : u.counters = t.counters)
      (documentIds : u.documents.map DocumentRow.id = s.documents.map DocumentRow.id) :
      Effect s a (some (a.stream, c.number)) u

theorem changeDocument_documentIds {d : Document} {expected : Int} {f : DocumentRow → DocumentRow}
    (hf : ∀ r, (f r).id = r.id) (h : s.changeDocument d expected f = .ok t) :
    t.documents.map DocumentRow.id = s.documents.map DocumentRow.id := by
  obtain ⟨-, rfl⟩ := changeDocument_eq_ok_iff.mp h
  simp only [List.map_map]
  refine List.map_congr_left fun r _ => ?_
  rw [Function.comp_apply]
  split
  · exact hf r
  · rfl

/-- A request that begins with an allocation makes it in full or not at all. -/
theorem Keyed.effect (hs : s.Keyed) (h : Scene.allocation? step = some a) :
    s.Effect a (step.issue? (s.perform step).1) (s.perform step).2 := by
  cases step with
  | allocate b =>
    obtain rfl : b = a := Option.some.inj h
    change s.Effect b (Step.issue? (.allocate b) (s.commit (s.advance b)).1)
      (s.commit (s.advance b)).2
    cases hr : (s.commit (s.advance b)).1 with
    | error f =>
      rw [(commit_error hr).2]
      exact .none
    | ok c =>
      have hc := hs.advance_eq_ok_iff.mp (commit_ok hr)
      exact .some hc rfl (by rw [hc.tables])
  | assignNumber d expected b =>
    obtain rfl : b = a := Option.some.inj h
    change s.Effect b (Step.issue? (.assignNumber d expected b)
      (s.commit (s.assignNumber d expected b)).1) (s.commit (s.assignNumber d expected b)).2
    cases hr : (s.commit (s.assignNumber d expected b)).1 with
    | error f =>
      rw [(commit_error hr).2]
      exact .none
    | ok reply =>
      obtain ⟨e, n⟩ := reply
      obtain ⟨c, t, hadvance, rfl, rfl, hchange⟩ := assignNumber_eq_ok_iff.mp (commit_ok hr)
      have hc := hs.advance_eq_ok_iff.mp hadvance
      have hids := changeDocument_documentIds (f := fun r => r.numbered d c.number.formatted)
        (fun _ => rfl) hchange
      rw [hc.tables] at hids
      refine .some hc ?_ hids
      rw [(changeDocument_eq_ok_iff.mp hchange).2]
  | _ => cases h

theorem Lawful.of_tables (hs : s.Lawful) (hc : t.counters = s.counters)
    (hd : t.documents.map DocumentRow.id = s.documents.map DocumentRow.id) : t.Lawful :=
  ⟨⟨hc ▸ hs.counterIds, hd ▸ hs.documentIds⟩, hc ▸ hs.liveKeys⟩

theorem Effect.lawful {issue : Option (Stream × Number)} (hs : s.Lawful)
    (h : s.Effect a issue t) : t.Lawful := by
  cases h with
  | none => exact hs
  | some advances counters documentIds =>
    refine (advances.lawful hs).of_tables counters ?_
    rw [documentIds, advances.tables]

/-- No request makes a lawful store unlawful. -/
theorem Lawful.perform (hs : s.Lawful) (step : Step) : (s.perform step).2.Lawful := by
  cases step with
  | insertCounter c =>
    simp only [Store.perform, Store.insertCounter]
    cases h : s.addCounter (.encode c) with
    | error f => exact hs
    | ok t => exact hs.add h
  | updateSettings c =>
    simp only [Store.perform, Store.updateSettings]
    split
    · exact hs
    · refine hs.map fun r => ?_
      split
      · exact ⟨rfl, rfl, fun h => h⟩
      · exact ⟨rfl, rfl, fun h => h⟩
  | retireCounter tenant id stamp =>
    simp only [Store.perform, Store.retireCounter]
    split
    · refine hs.map fun r => ?_
      split
      · exact ⟨rfl, rfl, nofun⟩
      · exact ⟨rfl, rfl, fun h => h⟩
    · exact hs
  | allocate a => exact (hs.toKeyed.effect rfl).lawful hs
  | assignNumber d expected a => exact (hs.toKeyed.effect rfl).lawful hs
  | insertDocument d =>
    refine commit_induction (P := Lawful) hs fun e t h => ?_
    obtain ⟨hid, -, rfl⟩ := insertDocument_eq_ok_iff.mp h
    refine ⟨⟨hs.counterIds, ?_⟩, hs.liveKeys⟩
    rw [List.map_append, List.map_singleton, ← List.concat_eq_append]
    refine hs.documentIds.concat fun hm => ?_
    obtain ⟨r, hr, h⟩ := List.mem_map.mp hm
    exact hid r hr h
  | applyChange d expected c =>
    refine commit_induction (P := Lawful) hs fun e t h => ?_
    have hcounters := applyChange_counters h
    obtain ⟨u, hchange, -, -, rfl⟩ := applyChange_eq_ok_iff.mp h
    have hids := changeDocument_documentIds (f := fun r => r.moved d) (fun _ => rfl) hchange
    exact hs.of_tables hcounters hids
  | _ => exact hs

end Store

end Docket
