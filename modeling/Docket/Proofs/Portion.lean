import Docket.Proofs.Documents
import Docket.Proofs.Lookup

/-! # What a store keeps for a tenant

The rows of a tenant make up a store of their own. A request of the tenant does to them, and
answers, what it would if they were all there is, and a request of another tenant leaves them alone.
-/

namespace Docket

open Store Issuing Simulation

namespace Store

variable {s t : Store} {tenant other id : Id} {stream : Stream} {a : Allocation}
  {r : CounterRow} {d : Document} {expected : Int}

def owns (s : Store) (tenant id : Id) : Bool :=
  s.documents.any fun r => decide (r.id = id ∧ r.tenant = tenant)

/-- The rows of a tenant, with the lines of the tenant's documents. -/
def portion (s : Store) (tenant : Id) : Store :=
  { counters := s.counters.filter fun r => r.tenant = tenant
    documents := s.documents.filter fun r => r.tenant = tenant
    lines := s.lines.filter fun l => s.owns tenant l.document
    changes := s.changes.filter fun r => r.tenant = tenant }

section Rows

variable {α : Type} {rows : List α} {p q : α → Bool}

theorem filter_filter_of_imp (h : ∀ a ∈ rows, q a → p a) :
    (rows.filter p).filter q = rows.filter q := by
  rw [List.filter_filter]
  refine List.filter_congr fun a ha => ?_
  rw [Bool.and_eq_left_iff_imp]
  exact h a ha

theorem any_filter_of_imp (h : ∀ a ∈ rows, q a → p a) : (rows.filter p).any q = rows.any q := by
  rw [Bool.eq_iff_iff]
  simp only [List.any_eq_true, List.mem_filter]
  constructor
  · rintro ⟨a, ⟨ha, -⟩, hq⟩
    exact ⟨a, ha, hq⟩
  · rintro ⟨a, ha, hq⟩
    exact ⟨a, ⟨ha, h a ha hq⟩, hq⟩

theorem find?_filter_of_imp (h : ∀ a ∈ rows, q a → p a) :
    (rows.filter p).find? q = rows.find? q := by
  rw [← List.head?_filter, filter_filter_of_imp h, List.head?_filter]

end Rows

theorem owns_iff : s.owns tenant id ↔ ∃ r ∈ s.documents, r.id = id ∧ r.tenant = tenant := by
  simp only [owns, List.any_eq_true, decide_eq_true_eq]

theorem Keyed.portion (hs : s.Keyed) (tenant : Id) : (s.portion tenant).Keyed := by
  constructor
  · exact (List.filter_sublist.map _).nodup hs.counterIds
  · exact (List.filter_sublist.map _).nodup hs.documentIds

theorem liveCounters_portion : (s.portion tenant).liveCounters tenant = s.liveCounters tenant := by
  refine filter_filter_of_imp fun r _ h => decide_eq_true ?_
  exact (of_decide_eq_true h).1

theorem streamRows_portion (hstream : stream.tenant = tenant) :
    (s.portion tenant).streamRows stream = s.streamRows stream := by
  refine congrArg (List.foldr insertByKey []) (filter_filter_of_imp fun r _ h => decide_eq_true ?_)
  exact (congrArg Stream.tenant (of_decide_eq_true h).1).trans hstream

theorem isTaken_portion {key : Stream × Int} (hkey : key.1.tenant = tenant) :
    (s.portion tenant).isTaken key id = s.isTaken key id := by
  refine any_filter_of_imp fun r _ h => decide_eq_true ?_
  exact (congrArg (fun k => k.1.tenant) (of_decide_eq_true h).2.1).trans hkey

theorem addCounter_portion (hr : r.tenant = tenant)
    (hid : ∀ q ∈ s.counters, q.id = r.id → q.tenant = tenant) :
    (s.portion tenant).addCounter r = (s.addCounter r).map fun t => t.portion tenant := by
  have hkeys : (s.portion tenant).counters.any (fun q => decide (q.isLive ∧ q.liveKey = r.liveKey))
      = s.counters.any fun q => decide (q.isLive ∧ q.liveKey = r.liveKey) := by
    refine any_filter_of_imp fun q _ h => decide_eq_true ?_
    exact (congrArg (fun k => k.1.tenant) (of_decide_eq_true h).2).trans hr
  have hids : (s.portion tenant).counters.any (fun q => decide (q.id = r.id))
      = s.counters.any fun q => decide (q.id = r.id) :=
    any_filter_of_imp fun q hq h => decide_eq_true (hid q hq (of_decide_eq_true h))
  simp only [addCounter, hkeys, hids]
  split_ifs
  · rfl
  · rfl
  · simp [Except.map, Store.portion, owns, List.filter_append, hr]

theorem map_portion {f : CounterRow → CounterRow}
    (hf : ∀ r ∈ s.counters, (f r).tenant = r.tenant) :
    portion { s with counters := s.counters.map f } tenant
      = { s.portion tenant with counters := (s.portion tenant).counters.map f } := by
  have hcounters : (s.counters.map f).filter (fun r => r.tenant = tenant)
      = (s.counters.filter fun r => r.tenant = tenant).map f := by
    rw [List.filter_map]
    refine congrArg (List.map f) (List.filter_congr fun r hr => ?_)
    rw [Function.comp_apply, hf r hr]
  simp only [Store.portion, owns, hcounters]

theorem changeCounter_portion {f : CounterRow → CounterRow}
    (hf : ∀ r ∈ s.counters, r.id = id → (f r).tenant = r.tenant) :
    (s.portion tenant).changeCounter id f = (s.changeCounter id f).portion tenant := by
  refine (map_portion fun r hr => ?_).symm
  split
  · next h => exact hf r hr h
  · rfl

theorem Keyed.advance_portion (hs : s.Keyed) (hstream : a.stream.tenant = tenant)
    (hid : ∀ q ∈ s.counters, q.id = a.fresh → q.tenant = tenant) :
    (s.portion tenant).advance a = (s.advance a).map fun x => (x.1, x.2.portion tenant) := by
  cases hrows : CounterRow.decodeAll (s.streamRows a.stream) with
  | error f =>
    simp only [advance, streamRows_portion hstream, hrows, lift, bind, Except.bind, Except.map]
  | ok counters =>
    have hrows' := hrows
    rw [← streamRows_portion hstream] at hrows'
    cases hselect : select? counters a.year with
    | none =>
      rw [advance_of_none hrows hselect, advance_of_none hrows' hselect,
        addCounter_portion (r := .encode a.firstCounter) hstream hid]
      cases s.addCounter (.encode a.firstCounter) with
      | error f => rfl
      | ok t => cases (CounterRow.encode a.firstCounter).decode <;> rfl
    | some c =>
      obtain ⟨hc, hcs, -, -⟩ := mem_of_rows hrows (mem_of_select? hselect)
      have htenant : c.tenant = tenant := (congrArg Stream.tenant hcs).trans hstream
      have hnext : (a.next c).tenant = c.tenant :=
        congrArg Stream.tenant (Allocation.next_stream a c)
      rw [hs.advance_of_some hrows hselect, (hs.portion tenant).advance_of_some hrows' hselect,
        isTaken_portion (hnext.trans htenant), changeCounter_portion]
      · split_ifs
        · rfl
        · cases (CounterRow.encode (a.next c)).decode <;> rfl
        · rfl
      · intro r hr hrid
        rw [hs.counter_eq hr hc hrid]
        exact hnext

theorem findRow_portion : (s.portion tenant).findRow tenant id = s.findRow tenant id :=
  find?_filter_of_imp fun _ _ h => decide_eq_true (of_decide_eq_true h).2

theorem linesOf_portion (h : s.owns tenant id) :
    (s.portion tenant).linesOf id = s.linesOf id := by
  refine congrArg (List.mergeSort · _) (filter_filter_of_imp fun l _ hl => ?_)
  rw [of_decide_eq_true hl]
  exact h

theorem owns_of_findRow {q : DocumentRow} (h : s.findRow tenant id = some q) :
    s.owns tenant id :=
  owns_iff.mpr ⟨q, mem_of_findRow h⟩

theorem findDocument_portion :
    (s.portion tenant).findDocument tenant id = s.findDocument tenant id := by
  unfold findDocument
  rw [findRow_portion]
  cases h : s.findRow tenant id with
  | none => rfl
  | some q => simp only [linesOf_portion (owns_of_findRow h)]

theorem listChanges_portion :
    (s.portion tenant).listChanges tenant id = s.listChanges tenant id := by
  have hchanges : (s.portion tenant).changesOf tenant id = s.changesOf tenant id := by
    refine congrArg (fun rows => (List.reverse rows).mergeSort _)
      (filter_filter_of_imp fun r _ h => decide_eq_true ?_)
    exact (of_decide_eq_true h).2
  rw [listChanges, hchanges, listChanges]

theorem Anchored.insertDocument_portion (hs : s.Anchored) (hd : d.tenant = tenant)
    (hid : ∀ r ∈ s.documents, r.id = d.id → r.tenant = tenant) :
    (s.portion tenant).insertDocument d
      = (s.insertDocument d).map fun x => (x.1, x.2.portion tenant) := by
  have hids : (s.portion tenant).documents.any (fun r => decide (r.id = d.id))
      = s.documents.any fun r => decide (r.id = d.id) :=
    any_filter_of_imp fun r hr h => decide_eq_true (hid r hr (of_decide_eq_true h))
  simp only [insertDocument, hids]
  split
  · rfl
  · next hnew =>
    simp only [List.any_eq_true, decide_eq_true_eq, not_exists, not_and] at hnew
    have hold := hs.line_ne hnew
    have howns : ∀ id, owns { s with
        documents := s.documents ++ [.encode d]
        lines := s.lines ++ d.lines.map (LineRow.encode d.id) } tenant id
        = (s.owns tenant id || decide (d.id = id)) := by
      intro id
      simp [owns, DocumentRow.encode, hd]
    have hlines : s.lines.filter (fun l => s.owns tenant l.document || decide (d.id = l.document))
        = s.lines.filter fun l => s.owns tenant l.document := by
      refine List.filter_congr fun l hl => ?_
      rw [decide_eq_false (hold l hl).symm, Bool.or_false]
    have hnewLines : (d.lines.map (LineRow.encode d.id)).filter
        (fun l => s.owns tenant l.document || decide (d.id = l.document))
        = d.lines.map (LineRow.encode d.id) := by
      refine List.filter_eq_self.mpr fun l hl => ?_
      obtain ⟨line, -, rfl⟩ := List.mem_map.mp hl
      exact Bool.or_eq_true_iff.mpr (Or.inr (decide_eq_true rfl))
    simp only [Except.map, Store.portion, howns, List.filter_append, hlines, hnewLines]
    simp [DocumentRow.encode, hd]

theorem changeDocument_portion {f : DocumentRow → DocumentRow} (hd : d.tenant = tenant)
    (hf : ∀ r, (f r).id = r.id ∧ (f r).tenant = r.tenant) :
    (s.portion tenant).changeDocument d expected f
      = (s.changeDocument d expected f).map fun t => t.portion tenant := by
  have hany : (s.portion tenant).documents.any
        (fun r => decide (r.id = d.id ∧ r.tenant = d.tenant ∧ r.version = expected))
      = s.documents.any
        fun r => decide (r.id = d.id ∧ r.tenant = d.tenant ∧ r.version = expected) :=
    any_filter_of_imp fun r _ h => decide_eq_true ((of_decide_eq_true h).2.1.trans hd)
  have hkept : ∀ r : DocumentRow, (if decide (r.id = d.id ∧ r.tenant = d.tenant ∧
      r.version = expected) then f r else r).id = r.id ∧ (if decide (r.id = d.id ∧
      r.tenant = d.tenant ∧ r.version = expected) then f r else r).tenant = r.tenant := by
    intro r
    split
    · exact hf r
    · exact ⟨rfl, rfl⟩
  simp only [changeDocument, hany]
  split
  · simp only [Except.map, Store.portion, owns, List.filter_map, List.any_map, Function.comp_def,
      hkept]
  · rfl

theorem Keyed.assignNumber_portion (hs : s.Keyed) (hd : d.tenant = tenant)
    (hstream : a.stream.tenant = tenant)
    (hid : ∀ q ∈ s.counters, q.id = a.fresh → q.tenant = tenant) :
    (s.portion tenant).assignNumber d expected a
      = (s.assignNumber d expected a).map fun x => (x.1, x.2.portion tenant) := by
  unfold assignNumber
  rw [hs.advance_portion hstream hid]
  cases s.advance a with
  | error f => rfl
  | ok reply =>
    obtain ⟨c, t⟩ := reply
    have hchange : (t.portion tenant).changeDocument d expected _ = _ :=
      changeDocument_portion (f := fun r => r.numbered d c.number.formatted) hd fun r => ⟨rfl, rfl⟩
    simp only [bind, Except.bind, Except.map]
    rw [hchange]
    cases t.changeDocument d expected fun r => r.numbered d c.number.formatted <;> rfl

theorem applyChange_portion {c : StatusChange} (hd : d.tenant = tenant) (hc : c.document = d.id) :
    (s.portion tenant).applyChange d expected c
      = (s.applyChange d expected c).map fun x => (x.1, x.2.portion tenant) := by
  unfold applyChange
  rw [changeDocument_portion (f := fun r => r.moved d) hd fun r => ⟨rfl, rfl⟩]
  cases hchange : s.changeDocument d expected fun r => r.moved d with
  | error f => rfl
  | ok t =>
    -- The document that was changed is one of the tenant, and so it is found in both stores.
    obtain ⟨⟨r, hr, hrid, hrt, hrv⟩, ht⟩ := changeDocument_eq_ok_iff.mp hchange
    have hmem : r.moved d ∈ t.documents := by
      rw [ht]
      exact List.mem_map.mpr ⟨r, hr, if_pos ⟨hrid, hrt, hrv⟩⟩
    have hstored : t.documents.any (fun r => decide (r.id = c.document)) = true :=
      List.any_eq_true.mpr ⟨_, hmem, decide_eq_true (hrid.trans hc.symm)⟩
    have hstored' : (t.portion tenant).documents.any (fun r => decide (r.id = c.document)) = true :=
      List.any_eq_true.mpr ⟨_, List.mem_filter.mpr ⟨hmem, decide_eq_true (hrt.trans hd)⟩,
        decide_eq_true (hrid.trans hc.symm)⟩
    simp only [bind, Except.bind, Except.map, hstored, hstored', if_true, pure, Except.pure]
    simp [Store.portion, owns, List.filter_append, ChangeRow.encode, hd]

theorem commit_portion {α : Type} (x : Except StoreFailure (α × Store)) :
    (s.portion tenant).commit (x.map fun y => (y.1, y.2.portion tenant))
      = ((s.commit x).1, (s.commit x).2.portion tenant) := by
  cases x <;> rfl

end Store

namespace Step

/-- Requests on behalf of a tenant, which name no counter of others. -/
def Within (s : Store) (tenant : Id) : Step → Prop
  | acquire _ => True
  | findCounter owner _ => owner = tenant
  | findCounterByKey owner _ => owner = tenant
  | listCounters owner => owner = tenant
  | insertCounter c => c.tenant = tenant
  | updateSettings c => ∀ r ∈ s.counters, r.id = c.id → r.tenant = tenant
  | retireCounter owner _ _ => owner = tenant
  | allocate a => a.stream.tenant = tenant
  | findDocument owner _ => owner = tenant
  | findStatus owner _ => owner = tenant
  | listChanges owner _ => owner = tenant
  | insertDocument d => d.tenant = tenant
  | assignNumber d _ a => d.tenant = tenant ∧ a.stream.tenant = tenant
  | applyChange d _ c => d.tenant = tenant ∧ c.document = d.id

/-- The identifier that a request may give to a new row. -/
def fresh? : Step → Option Id
  | insertCounter c => some c.id
  | allocate a => some a.fresh
  | insertDocument d => some d.id
  | assignNumber _ _ a => some a.fresh
  | _ => none

end Step

namespace Store

variable {s : Store} {step : Step} {tenant other : Id}

/-- No row of another tenant has an identifier. -/
def Reserves (s : Store) (tenant id : Id) : Prop :=
  (∀ r ∈ s.counters, r.id = id → r.tenant = tenant) ∧
    ∀ r ∈ s.documents, r.id = id → r.tenant = tenant

/-- A request on behalf of a tenant does and answers what it would if there were no others. -/
theorem Keyed.perform_portion (hs : s.Keyed) (hlines : s.Anchored) (hstep : step.Within s tenant)
    (hfresh : ∀ id ∈ step.fresh?, s.Reserves tenant id) :
    (s.portion tenant).perform step
      = ((s.perform step).1, (s.perform step).2.portion tenant) := by
  cases step with
  | acquire => rfl
  | findCounter owner id =>
    obtain rfl : owner = tenant := hstep
    simp only [perform, findCounter, liveCounters_portion]
  | findCounterByKey owner key =>
    obtain rfl : owner = tenant := hstep
    simp only [perform, findCounterByKey, liveCounters_portion]
  | listCounters owner =>
    obtain rfl : owner = tenant := hstep
    simp only [perform, listCounters, liveCounters_portion]
  | insertCounter c =>
    have hadd := addCounter_portion (r := .encode c) hstep (hfresh c.id rfl).1
    simp only [perform, insertCounter, hadd]
    cases s.addCounter (.encode c) <;> rfl
  | updateSettings c =>
    have hfind : (s.portion tenant).counters.find? (fun r => r.id = c.id)
        = s.counters.find? fun r => r.id = c.id :=
      find?_filter_of_imp fun r hr h => decide_eq_true (hstep r hr (of_decide_eq_true h))
    have hchange : (s.portion tenant).changeCounter c.id _ = _ :=
      changeCounter_portion (f := fun r => r.configured c) fun _ _ _ => rfl
    simp only [perform, updateSettings, hfind, hchange]
    cases s.counters.find? fun r => r.id = c.id <;> rfl
  | retireCounter owner id stamp =>
    obtain rfl : owner = tenant := hstep
    simp only [perform, retireCounter, liveCounters_portion]
    split
    · refine congrArg (Prod.mk _) (map_portion fun r _ => ?_).symm
      split <;> rfl
    · rfl
  | allocate a =>
    simp only [perform, hs.advance_portion hstep (hfresh a.fresh rfl).1]
    exact commit_portion _
  | findDocument owner id =>
    obtain rfl : owner = tenant := hstep
    simp only [perform, findDocument_portion]
  | findStatus owner id =>
    obtain rfl : owner = tenant := hstep
    simp only [perform, findStatus, findRow_portion]
  | listChanges owner id =>
    obtain rfl : owner = tenant := hstep
    simp only [perform, listChanges_portion]
  | insertDocument d =>
    simp only [perform, hlines.insertDocument_portion hstep (hfresh d.id rfl).2]
    exact commit_portion _
  | assignNumber d expected a =>
    simp only [perform, hs.assignNumber_portion hstep.1 hstep.2 (hfresh a.fresh rfl).1]
    exact commit_portion _
  | applyChange d expected c =>
    simp only [perform, applyChange_portion hstep.1 hstep.2]
    exact commit_portion _

section Others

variable {t : Store} {a : Allocation} {c : Counter} {d : Document} {expected : Int}

theorem map_portion_of_fixed {f : CounterRow → CounterRow}
    (hf : ∀ r ∈ s.counters, (f r).tenant = r.tenant)
    (hfixed : ∀ r ∈ s.counters, r.tenant = tenant → f r = r) :
    portion { s with counters := s.counters.map f } tenant = s.portion tenant := by
  have hcounters : (s.portion tenant).counters.map f = (s.portion tenant).counters := by
    refine (List.map_congr_left fun r hr => ?_).trans (List.map_id _)
    obtain ⟨hr, htenant⟩ := List.mem_filter.mp hr
    exact hfixed r hr (of_decide_eq_true htenant)
  rw [map_portion hf, hcounters]

theorem append_portion {r : CounterRow} (hr : r.tenant ≠ tenant) :
    portion { s with counters := s.counters ++ [r] } tenant = s.portion tenant := by
  simp [Store.portion, owns, List.filter_append, hr]

theorem Advances.portion_of_ne (h : s.Advances a c t) (hs : s.Keyed)
    (hne : a.stream.tenant ≠ tenant) : t.portion tenant = s.portion tenant := by
  cases h with
  | first => exact append_portion hne
  | @next counters d rows selected =>
    obtain ⟨hd, hstream, -, -⟩ := mem_of_rows rows (mem_of_select? selected)
    have htenant : d.tenant = a.stream.tenant := congrArg Stream.tenant hstream
    have hnext : (a.next d).tenant = d.tenant := congrArg Stream.tenant (Allocation.next_stream a d)
    have hrow : ∀ r ∈ s.counters, r.id = d.id → r.tenant = d.tenant := fun r hr hid => by
      rw [hs.counter_eq hr hd hid]
      rfl
    refine map_portion_of_fixed (fun r hr => ?_) fun r hr hrt => ?_
    · split
      · next hid => exact hnext.trans (hrow r hr hid).symm
      · rfl
    · refine if_neg fun hid => hne ?_
      rw [← htenant, ← hrow r hr hid, hrt]

theorem changeDocument_portion_of_ne {f : DocumentRow → DocumentRow}
    (h : s.changeDocument d expected f = .ok t) (hne : d.tenant ≠ tenant)
    (hf : ∀ r, (f r).id = r.id ∧ (f r).tenant = r.tenant) :
    t.portion tenant = s.portion tenant := by
  obtain ⟨-, rfl⟩ := changeDocument_eq_ok_iff.mp h
  let g : DocumentRow → DocumentRow := fun r =>
    if r.id = d.id ∧ r.tenant = d.tenant ∧ r.version = expected then f r else r
  have hg : ∀ r, (g r).id = r.id ∧ (g r).tenant = r.tenant := by
    intro r
    dsimp only [g]
    split
    · exact hf r
    · exact ⟨rfl, rfl⟩
  have hfixed : (s.documents.filter fun r => r.tenant = tenant).map g
      = s.documents.filter fun r => r.tenant = tenant := by
    refine (List.map_congr_left fun r hr => ?_).trans (List.map_id _)
    have hrt : r.tenant = tenant := of_decide_eq_true (List.mem_filter.mp hr).2
    exact if_neg fun hmatch => hne (hmatch.2.1.symm.trans hrt)
  change portion { s with documents := s.documents.map g } tenant = s.portion tenant
  simp only [Store.portion, owns, List.filter_map, List.any_map, Function.comp_def, hg, hfixed]

theorem insertDocument_portion_of_ne {e : Document} (h : s.insertDocument d = .ok (e, t))
    (hne : d.tenant ≠ tenant) : t.portion tenant = s.portion tenant := by
  obtain ⟨hnew, -, rfl⟩ := insertDocument_eq_ok_iff.mp h
  have howns : ∀ id, owns { s with
      documents := s.documents ++ [.encode d]
      lines := s.lines ++ d.lines.map (LineRow.encode d.id) } tenant id = s.owns tenant id := by
    intro id
    simp [owns, DocumentRow.encode, hne]
  have hlines : (d.lines.map (LineRow.encode d.id)).filter
      (fun l => s.owns tenant l.document) = [] := by
    refine List.filter_eq_nil_iff.mpr fun l hl howned => ?_
    obtain ⟨line, -, rfl⟩ := List.mem_map.mp hl
    obtain ⟨r, hr, hid, -⟩ := owns_iff.mp howned
    exact hnew r hr hid
  simp only [Store.portion, howns, List.filter_append, hlines, List.append_nil]
  simp [DocumentRow.encode, hne]

/-- A request on behalf of another tenant changes nothing of what a store keeps for a tenant. -/
theorem Keyed.portion_perform_of_ne (hs : s.Keyed) (hstep : step.Within s other)
    (hne : other ≠ tenant) : (s.perform step).2.portion tenant = s.portion tenant := by
  cases step with
  | insertCounter c =>
    obtain rfl : c.tenant = other := hstep
    simp only [perform, insertCounter]
    cases hadd : s.addCounter (.encode c) with
    | error f => rfl
    | ok t =>
      obtain ⟨-, -, rfl⟩ := addCounter_eq_ok_iff.mp hadd
      exact append_portion hne
  | updateSettings c =>
    simp only [perform, updateSettings]
    split
    · rfl
    · refine map_portion_of_fixed (fun r _ => ?_) fun r hr hrt => ?_
      · split <;> rfl
      · exact if_neg fun hid => hne ((hstep r hr hid).symm.trans hrt)
  | retireCounter owner id stamp =>
    obtain rfl : owner = other := hstep
    simp only [perform, retireCounter]
    split
    · refine map_portion_of_fixed (fun r _ => ?_) fun r hr hrt => ?_
      · split <;> rfl
      · exact if_neg fun h => hne (h.2.1.symm.trans hrt)
    · rfl
  | allocate a =>
    obtain rfl : a.stream.tenant = other := hstep
    refine commit_induction (P := fun t => t.portion tenant = s.portion tenant) rfl fun c t h => ?_
    exact (hs.advance_eq_ok_iff.mp h).portion_of_ne hs hne
  | insertDocument d =>
    obtain rfl : d.tenant = other := hstep
    refine commit_induction (P := fun t => t.portion tenant = s.portion tenant) rfl fun e t h => ?_
    exact insertDocument_portion_of_ne h hne
  | assignNumber d expected a =>
    obtain ⟨rfl, hstream⟩ := hstep
    refine commit_induction (P := fun t => t.portion tenant = s.portion tenant) rfl
      fun result t h => ?_
    obtain ⟨e, n⟩ := result
    obtain ⟨c, u, hadvance, -, -, hchange⟩ := assignNumber_eq_ok_iff.mp h
    rw [changeDocument_portion_of_ne hchange hne fun r => ⟨rfl, rfl⟩]
    exact (hs.advance_eq_ok_iff.mp hadvance).portion_of_ne hs (hstream ▸ hne)
  | applyChange d expected c =>
    obtain ⟨rfl, -⟩ := hstep
    refine commit_induction (P := fun t => t.portion tenant = s.portion tenant) rfl fun e t h => ?_
    obtain ⟨u, hchange, -, -, rfl⟩ := applyChange_eq_ok_iff.mp h
    rw [← changeDocument_portion_of_ne hchange hne fun r => ⟨rfl, rfl⟩]
    simp [Store.portion, owns, List.filter_append, ChangeRow.encode, hne]
  | _ => rfl

end Others

section Lines

variable {t : Store} {reply : step.Reply}

theorem Anchored.changed (hs : s.Anchored) {d : Document} {expected : Int}
    {f : DocumentRow → DocumentRow} (hf : ∀ r, (f r).id = r.id)
    (h : s.changeDocument d expected f = .ok t) : t.Anchored := by
  refine hs.of_ids ?_ (changeDocument_documentIds hf h)
  rw [(changeDocument_eq_ok_iff.mp h).2]

theorem Replies.anchored (h : s.Replies step reply t) (hkeyed : s.Keyed) (hs : s.Anchored) :
    t.Anchored := by
  cases hstep : step.changesDocuments with
  | false =>
    have hagrees := h.agrees hkeyed hstep
    exact hs.of_ids hagrees.lines (by rw [hagrees.documents])
  | true =>
    cases h with
    | refused => exact hs
    | served =>
      cases step with
      | insertDocument d =>
        exact commit_induction (P := Anchored) hs fun e t h => hs.inserted h
      | assignNumber d expected a =>
        refine commit_induction (P := Anchored) hs fun ⟨e, n⟩ t h => ?_
        obtain ⟨c, u, hadvance, -, -, hchange⟩ := assignNumber_eq_ok_iff.mp h
        have hu : u.Anchored := by
          rw [(hkeyed.advance_eq_ok_iff.mp hadvance).tables]
          exact hs
        exact hu.changed (f := fun r => r.numbered d n.formatted) (fun _ => rfl) hchange
      | applyChange d expected c =>
        refine commit_induction (P := Anchored) hs fun e t h => ?_
        obtain ⟨u, hchange, -, -, rfl⟩ := applyChange_eq_ok_iff.mp h
        have hu : u.Anchored := hs.changed (f := fun r => r.moved d) (fun _ => rfl) hchange
        exact hu.of_ids rfl rfl
      | _ => cases hstep

end Lines

end Store

end Docket
