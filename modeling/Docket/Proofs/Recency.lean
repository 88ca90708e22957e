import Mathlib.Data.List.Chain
import Docket.Proofs.Succession

/-! # The history from the last change to the first

Changes are listed by their times as they are stored, the latest first, and changes of one time by
version. As changes of a document are recorded in the order of their times, that is the reverse of
the order of recording for as long as the stored texts follow the times: in the years of four
digits.
-/

namespace Docket

open Store Simulation Time

namespace Store

variable {s t : Store} {r : DocumentRow} {a b : ChangeRow} {cs : List ChangeRow}

/-- The order of listing in terms of what is stored. -/
def storedAfter (a b : ChangeRow) : Bool :=
  decide (b.changed.time.storedText < a.changed.time.storedText ∨
    b.changed.time.storedText = a.changed.time.storedText ∧ b.version ≤ a.version)

theorem storedAfter_iff :
    storedAfter a b = true ↔ b.changed.time.storedText < a.changed.time.storedText ∨
      b.changed.time.storedText = a.changed.time.storedText ∧ b.version ≤ a.version :=
  decide_eq_true_iff

theorem changedAfter_eq_storedAfter (ha : a.changed.time.Regular) (hb : b.changed.time.Regular) :
    changedAfter a b = storedAfter a b := by
  unfold changedAfter storedAfter
  split
  · next hne =>
    have htexts : b.changed.time.storedText ≠ a.changed.time.storedText := fun h =>
      hne (Instant.storedText_injective ha hb h.symm)
    simp [htexts, le_iff_lt_or_eq]
  · next heq =>
    rw [not_not.mp heq]
    simp

theorem pairwise_storedAfter (cs : List ChangeRow) :
    (cs.mergeSort storedAfter).Pairwise fun a b => storedAfter a b = true := by
  apply List.pairwise_mergeSort
  · intro a b c hab hbc
    rw [storedAfter_iff] at *
    rcases hab with hab | ⟨hab, hle⟩ <;> rcases hbc with hbc | ⟨hbc, hle'⟩
    · exact Or.inl (hbc.trans hab)
    · exact Or.inl (hbc.trans_lt hab)
    · exact Or.inl (hbc.trans_eq hab)
    · exact Or.inr ⟨hbc.trans hab, hle'.trans hle⟩
  · intro a b
    rw [Bool.or_eq_true, storedAfter_iff, storedAfter_iff]
    rcases lt_trichotomy a.changed.time.storedText b.changed.time.storedText with hlt | heq | hlt
    · exact Or.inr (Or.inl hlt)
    · exact (le_total b.version a.version).imp (fun h => Or.inr ⟨heq.symm, h⟩)
        fun h => Or.inr ⟨heq, h⟩
    · exact Or.inl (Or.inl hlt)

/-- Changes that are recorded by version are listed in the reverse order exactly if their stored
times do not go back. -/
theorem mergeSort_changedAfter_eq_iff (hversions : cs.Pairwise fun a b => a.version < b.version)
    (hregular : ∀ c ∈ cs, c.changed.time.Regular) :
    cs.reverse.mergeSort changedAfter = cs.reverse ↔
      cs.Pairwise fun a b => a.changed.time.storedText ≤ b.changed.time.storedText := by
  constructor
  · intro h
    have hsame : cs.reverse.mergeSort changedAfter = cs.reverse.mergeSort storedAfter := by
      have hmap := List.map_mergeSort (r := changedAfter) (s := storedAfter) (f := id)
        (l := cs.reverse) fun a ha b hb =>
          changedAfter_eq_storedAfter (hregular a (List.mem_reverse.mp ha))
            (hregular b (List.mem_reverse.mp hb))
      simpa using hmap
    have hsorted := pairwise_storedAfter cs.reverse
    rw [← hsame, h, List.pairwise_reverse] at hsorted
    exact hsorted.imp fun hafter => (storedAfter_iff.mp hafter).elim le_of_lt fun h => h.1.le
  · intro h
    apply List.mergeSort_of_pairwise
    apply List.pairwise_reverse.mpr
    refine (h.and hversions).imp fun {a b} ⟨htext, hversion⟩ => ?_
    unfold changedAfter
    split
    · exact decide_eq_true htext
    · exact decide_eq_true hversion.le

theorem exists_decoded {tenant : Id} (h : ∀ c ∈ cs, ∃ x, c = .encode tenant x) :
    ∃ entries, cs.mapM ChangeRow.decode = .ok entries ∧ entries.map (.encode tenant) = cs := by
  induction cs with
  | nil => exact ⟨[], rfl, rfl⟩
  | cons c cs ih =>
    obtain ⟨x, rfl⟩ := h c List.mem_cons_self
    obtain ⟨entries, hdecoded, rfl⟩ := ih fun c hc => h c (List.mem_cons_of_mem _ hc)
    refine ⟨x :: entries, ?_, rfl⟩
    rw [List.mapM_cons, ChangeRow.decode_encode, hdecoded]
    rfl

/-- The changes of a document from the last to the first. -/
structure LatestFirst (s : Store) (r : DocumentRow) (entries : List StatusChange) : Prop where
  reversed : entries.map (.encode r.tenant) = (s.recorded r.id).reverse
  versions : entries.Pairwise fun a b => b.version < a.version
  times : entries.Pairwise fun a b => b.changed.time.le a.changed.time = true
  /-- Each change starts from the status that the one listed after it leads to. -/
  linked : entries.IsChain fun a b => a.source = b.target

end Store

open Store

theorem Leads.isChain {source target : Status} {cs : List ChangeRow}
    (h : Leads source cs target) : cs.IsChain fun a b => a.target = b.source := by
  induction h with
  | nil => exact .nil
  | cons begins ends allowed later ih =>
    cases later with
    | nil => exact .singleton _
    | cons begins' => exact .cons_cons (ends.trans begins'.symm) ih

theorem Leads.exists_encoded {source target : Status} {cs : List ChangeRow} {tenant : Id}
    (h : Leads source cs target) (htenant : ∀ c ∈ cs, c.tenant = tenant) :
    ∀ c ∈ cs, ∃ x, c = .encode tenant x := by
  induction h with
  | nil => exact fun _ hc => absurd hc List.not_mem_nil
  | @cons source middle _ c cs begins ends allowed later ih =>
    intro x hx
    rcases List.mem_cons.mp hx with rfl | hx
    · obtain ⟨id, document, _, _, _, reason, changed, clientAddress, userAgent, version⟩ := x
      cases begins
      cases ends
      cases htenant _ List.mem_cons_self
      exact
        ⟨⟨id, document, source, middle, reason, changed, clientAddress, userAgent, version⟩, rfl⟩
    · exact ih (fun c hc => htenant c (List.mem_cons_of_mem _ hc)) x hx

section Listing

variable {s : Store} {r : DocumentRow} {entries : List StatusChange}

theorem Faithful.latestFirst (h : Faithful (s.recorded r.id) r)
    (htimes : (s.recorded r.id).Pairwise fun a b => a.changed.time.le b.changed.time = true)
    (hreversed : entries.map (.encode r.tenant) = (s.recorded r.id).reverse) :
    s.LatestFirst r entries := by
  obtain ⟨status, -, hleads⟩ := h.leads
  constructor
  case reversed => exact hreversed
  case versions =>
    have hversions := List.pairwise_reverse.mpr h.increasing
    rw [← hreversed, List.pairwise_map] at hversions
    exact hversions
  case times =>
    have htimes' := List.pairwise_reverse.mpr htimes
    rw [← hreversed, List.pairwise_map] at htimes'
    exact htimes'
  case linked =>
    have hchain := List.isChain_reverse.mpr hleads.isChain
    rw [← hreversed, List.isChain_map] at hchain
    exact hchain.imp fun a b htext => (Status.text_injective htext).symm

/-- The listed changes of a document are those recorded, and are in the reverse order of recording
exactly if the stored times do not go back. -/
theorem Faithful.exists_listed (h : Faithful (s.recorded r.id) r)
    (htimes : (s.recorded r.id).Pairwise fun a b => a.changed.time.le b.changed.time = true)
    (hregular : ∀ c ∈ s.recorded r.id, c.changed.time.Regular) :
    ∃ entries, s.listChanges r.tenant r.id = .ok entries ∧
      (entries.map (.encode r.tenant)).Perm (s.recorded r.id) ∧
      (s.LatestFirst r entries ↔ (s.recorded r.id).Pairwise fun a b =>
        a.changed.time.storedText ≤ b.changed.time.storedText) := by
  obtain ⟨status, -, hleads⟩ := h.leads
  have hlisted : s.changesOf r.tenant r.id = (s.recorded r.id).reverse.mergeSort changedAfter := by
    rw [changesOf, h.filter_eq_recorded]
  have hperm : (s.changesOf r.tenant r.id).Perm (s.recorded r.id) :=
    hlisted ▸ (List.mergeSort_perm _ _).trans (List.reverse_perm _)
  obtain ⟨entries, hdecoded, hentries⟩ := exists_decoded fun c hc =>
    hleads.exists_encoded h.tenant c (hperm.subset hc)
  refine ⟨entries, ?_, hentries ▸ hperm, ?_⟩
  · rw [listChanges, hdecoded]
    rfl
  · rw [← mergeSort_changedAfter_eq_iff h.increasing hregular, ← hlisted, ← hentries]
    exact ⟨LatestFirst.reversed, h.latestFirst htimes⟩

theorem Faithful.listChanges_of_ne (h : Faithful (s.recorded r.id) r) {tenant : Id}
    (hne : tenant ≠ r.tenant) : s.listChanges tenant r.id = .ok [] := by
  have hnone : (s.changes.filter fun c => c.document = r.id ∧ c.tenant = tenant) = [] := by
    apply List.filter_eq_nil_iff.mpr
    intro c hc hboth
    obtain ⟨hid, htenant⟩ := of_decide_eq_true hboth
    have hmem : c ∈ s.recorded r.id := List.mem_filter.mpr ⟨hc, decide_eq_true hid⟩
    exact hne (htenant.symm.trans (h.tenant c hmem))
  rw [listChanges, changesOf, hnone, List.reverse_nil, List.mergeSort_nil]
  rfl

end Listing

theorem Service.succeeds_statusHistory {s : Store} {call : Call} {tenant id : Id}
    {entries : List StatusChange} (htenant : call.caller.tenant = some tenant)
    (hcancelled : call.caller.cancelled = false) (h : s.listChanges tenant id = .ok entries) :
    (statusHistory call id).Succeeds s ⟨entries, []⟩ s := by
  apply Action.succeeds_bind_iff.mpr
  refine ⟨tenant, s, succeeds_scope_iff.mpr ⟨htenant, rfl⟩, ?_⟩
  apply Action.succeeds_bind_iff.mpr
  refine ⟨(), s, succeeds_start_iff.mpr ⟨hcancelled, rfl⟩, ?_⟩
  apply Action.succeeds_bind_iff.mpr
  exact ⟨entries, s, Action.succeeds_ask_iff.mpr (congrArg (·, s) h),
    Action.succeeds_pure_iff.mpr ⟨rfl, rfl⟩⟩

open Course

section History

variable {ι : Type} [DecidableEq ι] {service : Service} {jobs : ι → Job}
  {σ : Course ι fun i => (jobs i).Answer} {clock : Nat → Instant} {r : DocumentRow} {call : Call}

theorem regular_of_reaches (h : Reaches (.start {} fun i => (jobs i).program service) σ)
    (hclock : Steady clock) (hread : StampsChanges jobs clock σ) :
    ∀ c ∈ σ.store.changes, c.changed.time.Regular := by
  intro c hc
  have hstamp := List.mem_map_of_mem (f := fun c => (some c.document, c.changed.time)) hc
  rw [(balanced_of_reaches h).stamps] at hstamp
  obtain ⟨i, hi, heq⟩ := List.mem_map.mp hstamp
  obtain ⟨hrequest, n, y, hy, hcommits⟩ := exists_trace_of_mem_writers hi
  obtain ⟨k, -, hnow, -⟩ := hread n i y hy hcommits hrequest
  have htime : (jobs i).call.now = c.changed.time := (Prod.ext_iff.mp heq).2
  rw [← htime, hnow]
  exact hclock.regular k

/-- With a clock that never goes back, the history of a document lists its changes from the last to
the first, in the reverse order of their recording, exactly if the texts that their times are stored
as do not go back. In the years 0 to 9999 they never do. Other tenants are shown no changes. -/
theorem history_latest_first_iff (h : Reaches (.start {} fun i => (jobs i).program service) σ)
    (hclock : Steady clock) (hread : StampsChanges jobs clock σ) (hr : r ∈ σ.store.documents)
    (hcall : call.caller.cancelled = false) :
    (call.caller.tenant = some r.tenant →
      ∃ entries, (Service.statusHistory call r.id).Succeeds σ.store ⟨entries, []⟩ σ.store ∧
        (entries.map (.encode r.tenant)).Perm (σ.store.recorded r.id) ∧
        (σ.store.LatestFirst r entries ↔ (σ.store.recorded r.id).Pairwise fun a b =>
          a.changed.time.storedText ≤ b.changed.time.storedText) ∧
        ((∀ c ∈ σ.store.recorded r.id, 0 ≤ c.changed.time.year ∧ c.changed.time.year ≤ 9999) →
          σ.store.LatestFirst r entries)) ∧
      ∀ tenant, call.caller.tenant = some tenant → tenant ≠ r.tenant →
        (Service.statusHistory call r.id).Succeeds σ.store ⟨[], []⟩ σ.store := by
  have hfaithful := (balanced_of_reaches h).accounted.faithful r hr
  have hregular : ∀ c ∈ σ.store.recorded r.id, c.changed.time.Regular := fun c hc =>
    regular_of_reaches h hclock hread c (List.mem_filter.mp hc).1
  have htimes : (σ.store.recorded r.id).Pairwise fun a b =>
      a.changed.time.le b.changed.time = true := by
    have hid : ∀ c ∈ σ.store.recorded r.id, c.document = r.id := fun c hc =>
      of_decide_eq_true (List.mem_filter.mp hc).2
    exact ((pairwise_le_of_reaches h hclock hread).filter _).imp_of_mem fun ha hb hle =>
      hle ((hid _ ha).trans (hid _ hb).symm)
  constructor
  · intro htenant
    obtain ⟨entries, hlisted, hperm, hiff⟩ := hfaithful.exists_listed htimes hregular
    refine ⟨entries, Service.succeeds_statusHistory htenant hcall hlisted, hperm, hiff, ?_⟩
    intro hyears
    apply hiff.mpr
    refine htimes.imp_of_mem fun {a b} ha hb hle => ?_
    rcases Instant.earlier_or_eq_of_le hle with hlt | heq
    · exact (hlt.storedText_lt (hregular a ha) (hyears a ha).1 (hyears b hb).2).le
    · rw [heq]
  · intro tenant htenant hne
    exact Service.succeeds_statusHistory htenant hcall (hfaithful.listChanges_of_ne hne)

end History

/-- Two changes of one time, with a number assigned between them. -/
theorem history_latest_first_iff_filed :
    ∃ r ∈ filed.store.documents, ∃ entries,
      (Service.statusHistory filingCall r.id).Succeeds filed.store ⟨entries, []⟩ filed.store ∧
        filed.store.LatestFirst r entries ∧ entries.map StatusChange.version = [4, 2] := by
  obtain ⟨r, hr, htenant, hyears, hversions⟩ : ∃ r ∈ filed.store.documents,
      filingCall.caller.tenant = some r.tenant ∧
        (∀ c ∈ filed.store.recorded r.id,
          0 ≤ c.changed.time.year ∧ c.changed.time.year ≤ 9999) ∧
        (filed.store.recorded r.id).map ChangeRow.version = [2, 4] := by
    decide +kernel
  have hreaches : Reaches (.start {} fun i => (filing i).program {}) filed := reaches_replay _ _
  have hclock : Steady fun _ => filingCall.now := ⟨fun _ _ _ => by decide, fun _ => by decide⟩
  have hnow : ∀ i, (filing i).call.now = filingCall.now := by decide
  obtain ⟨entries, hlisted, -, -, hlatest⟩ :=
    (history_latest_first_iff hreaches hclock (stampsChanges_of_now hnow) hr rfl).1 htenant
  have hfirst := hlatest hyears
  have hreversed := congrArg (List.map ChangeRow.version) hfirst.reversed
  rw [List.map_map, List.map_reverse, hversions] at hreversed
  exact ⟨r, hr, entries, hlisted, hfirst, hreversed⟩

def yearTenThousand : Instant := { filingCall.now with second := 253402302600 }

/-- A draft is opened, and taken back after the turn to the year 10000. -/
def reverting : Fin 3 → Job
  | 0 => ⟨filingCall, .createDocument filedDraft⟩
  | 1 => ⟨filingCall, .changeStatus filingCall.fresh .opened none⟩
  | 2 => ⟨{ filingCall with now := yearTenThousand }, .changeStatus filingCall.fresh .draft none⟩

def reverted : Course (Fin 3) fun i => (reverting i).Answer :=
  (start {} fun i => (reverting i).program {}).replay (inTurn 3 2)

/-- The year turns before the last request. -/
def lateClock (requests : Nat) : Instant :=
  if requests < 4 then filingCall.now else yearTenThousand

theorem steady_lateClock : Steady lateClock := by
  constructor
  · intro k l h
    unfold lateClock
    split <;> split
    · decide
    · decide
    · omega
    · decide
  · intro k
    unfold lateClock
    split <;> decide

theorem stampsChanges_reverted : StampsChanges reverting lateClock reverted := by
  have hnow : ∀ p ∈ reverted.trace.zipIdx, p.1.2.commits = true →
      (reverting p.1.1).request.changesStatus = true →
        (reverting p.1.1).call.now = lateClock p.2 := by
    decide +kernel
  intro n i x hx hcommits hrequest
  have hmem := List.mk_mem_zipIdx_iff_getElem?.mpr hx
  exact ⟨n, le_rfl, hnow _ hmem hcommits hrequest, fun _ hm _ _ => hm⟩

/-- The year 10000 is stored with a sign, and the change that was made then is listed last. -/
theorem history_latest_last_reverted :
    Reaches (.start {} fun i => (reverting i).program {}) reverted ∧ Steady lateClock ∧
      StampsChanges reverting lateClock reverted ∧
      ∃ r ∈ reverted.store.documents, filingCall.caller.tenant = some r.tenant ∧ ∃ entries,
        (Service.statusHistory filingCall r.id).Succeeds reverted.store ⟨entries, []⟩
          reverted.store ∧
          entries.map StatusChange.version = [2, 3] := by
  have hreaches : Reaches (.start {} fun i => (reverting i).program {}) reverted :=
    reaches_replay _ _
  obtain ⟨r, hr, htenant, hrecorded⟩ : ∃ r ∈ reverted.store.documents,
      filingCall.caller.tenant = some r.tenant ∧
        (reverted.store.recorded r.id).map (fun c => (c.version, c.changed.time))
          = [(2, filingCall.now), (3, yearTenThousand)] := by
    decide +kernel
  obtain ⟨a, rest, hab, ha, hrest⟩ := List.map_eq_cons_iff.mp hrecorded
  obtain ⟨b, rfl, hb⟩ := List.map_eq_singleton_iff.mp hrest
  have hopened : a.changed.time = filingCall.now := (Prod.ext_iff.mp ha).2
  have hreverted : b.changed.time = yearTenThousand := (Prod.ext_iff.mp hb).2
  -- the sign of the later year is less than the digits of the earlier one
  have hafter : changedAfter b a = false := by
    unfold changedAfter
    rw [hopened, hreverted, if_pos (by decide)]
    exact decide_eq_false (not_le.mpr
      (Instant.storedText_lt_of_year (by decide +kernel) (by decide +kernel) (by decide +kernel)))
  have hfaithful := (balanced_of_reaches hreaches).accounted.faithful r hr
  obtain ⟨status, -, hleads⟩ := hfaithful.leads
  obtain ⟨entries, hdecoded, hentries⟩ :=
    exists_decoded (hleads.exists_encoded hfaithful.tenant)
  have hlisted : reverted.store.listChanges r.tenant r.id = .ok entries := by
    rw [listChanges, changesOf, hfaithful.filter_eq_recorded, hab]
    rw [hab] at hdecoded
    simp [List.mergeSort, hafter, hdecoded, lift]
  refine ⟨hreaches, steady_lateClock, stampsChanges_reverted, r, hr, htenant, entries,
    Service.succeeds_statusHistory htenant rfl hlisted, ?_⟩
  have hversions := congrArg (List.map Prod.fst) hrecorded
  rw [← hentries, List.map_map, List.map_map] at hversions
  exact hversions

end Docket
