import Docket.Proofs.Ledger

/-! # What the status of a document guarantees

An open document has a business party and a type, and a closed one has a number and a positive total
as well. Nothing that a change of status asks for is lost on the way to the next one: a final status
is left alone, and a number stays.
-/

namespace Docket

open Store Simulation

namespace Document

/-- What may be relied on by the status of a document. -/
structure Guaranteed (d : Document) : Prop where
  opened : d.status = .opened → d.party.isSome = true ∧ d.documentType.isSome = true
  closed : d.status = .closed →
    d.party.isSome = true ∧ d.documentType.isSome = true ∧ d.number.isSome = true ∧ d.lines ≠ [] ∧
      ∃ total, d.grossTotal = .ok total ∧ 0 < total.toRat
  closedAt : d.closedAt.isSome = true ↔ d.status = .closed

variable {service : Service} {call : Call} {d e f : Document}

theorem guaranteed_of_draft (hstatus : d.status = .draft) (hclosed : d.closedAt = none) :
    d.Guaranteed := by
  constructor
  · intro h
    cases hstatus.symm.trans h
  · intro h
    cases hstatus.symm.trans h
  · rw [hclosed, hstatus]
    exact ⟨nofun, nofun⟩

theorem Guaranteed.numbered (h : d.Guaranteed) (hunnumbered : Service.checkUnnumbered d = .ok ())
    (number : String) : (service.numbered call d number).Guaranteed := by
  obtain ⟨hfinal, -⟩ := Service.checkUnnumbered_eq_ok_iff.mp hunnumbered
  refine ⟨h.opened, fun hclosed => ?_, h.closedAt⟩
  rw [show d.status = .closed from hclosed] at hfinal
  cases hfinal

theorem Guaranteed.moved (h : d.Guaranteed) {target : Status}
    (hvalid : d.checkChange target = .ok .valid) (version : Int) :
    (service.changed call d target version).Guaranteed := by
  have hopen : d.status ≠ .closed := by
    intro hclosed
    have hfinal := not_isFinal_of_valid hvalid
    rw [hclosed] at hfinal
    cases hfinal
  constructor
  case opened =>
    intro htarget
    obtain rfl : target = .opened := htarget
    have hopens := checkOpen_eq_valid_iff.mp (checkOpen_of_valid hvalid)
    exact hopens
  case closed =>
    intro htarget
    obtain rfl : target = .closed := htarget
    -- That a document has a type was asked for when it was opened.
    obtain ⟨-, htype⟩ := h.opened (status_of_closes hvalid)
    obtain ⟨hlines, ⟨total, htotal, hpositive⟩, hparty, hnumber⟩ :=
      checkClose_eq_valid_iff.mp (checkClose_of_valid hvalid)
    exact ⟨hparty, htype, hnumber, hlines, total, htotal, Decimal.isPositive_iff.mp hpositive⟩
  case closedAt =>
    change (if target = .closed then some call.now else d.closedAt).isSome = true ↔ target = .closed
    split
    · next htarget => exact ⟨fun _ => htarget, fun _ => rfl⟩
    · next htarget =>
      exact ⟨fun hsome => absurd (h.closedAt.mp hsome) hopen, fun h => absurd h htarget⟩

/-- A later state of a document: what was final has stayed, and so has its number. -/
structure Continues (d e : Document) : Prop where
  id : e.id = d.id
  tenant : e.tenant = d.tenant
  final : d.status.isFinal = true → e = d
  number : ∀ n, d.number = some n → e.number = some n

theorem Continues.refl (d : Document) : d.Continues d := ⟨rfl, rfl, fun _ => rfl, fun _ h => h⟩

theorem Continues.trans (h : d.Continues e) (h' : e.Continues f) : d.Continues f := by
  constructor
  case id => exact h'.id.trans h.id
  case tenant => exact h'.tenant.trans h.tenant
  case final =>
    intro hfinal
    obtain rfl := h.final hfinal
    exact h'.final hfinal
  case number => exact fun n hn => h'.number n (h.number n hn)

theorem continues_numbered (hunnumbered : Service.checkUnnumbered d = .ok ()) (number : String) :
    d.Continues (service.numbered call d number) := by
  obtain ⟨hfinal, hnumber⟩ := Service.checkUnnumbered_eq_ok_iff.mp hunnumbered
  refine ⟨rfl, rfl, fun h => ?_, fun n hn => ?_⟩
  · cases hfinal.symm.trans h
  · cases hnumber.symm.trans hn

theorem continues_changed {target : Status} (hvalid : d.checkChange target = .ok .valid)
    (version : Int) : d.Continues (service.changed call d target version) := by
  refine ⟨rfl, rfl, fun h => ?_, fun _ hn => hn⟩
  cases (not_isFinal_of_valid hvalid).symm.trans h

end Document

namespace Store

variable {s t : Store} {service : Service} {call : Call} {request : Request} {d e : Document}

/-- Every document that loads is as its status says. -/
def Assures (s : Store) : Prop := ∀ d, s.Holds d → d.Guaranteed

theorem Assures.of_replaces (hs : s.Assures) (h : s.Replaces d e t) (he : e.Guaranteed) :
    t.Assures := by
  intro x hx
  rcases h.holds_iff.mp hx with rfl | ⟨hx, -⟩
  · exact he
  · exact hs x hx

theorem Assures.of_revises (hs : s.Assures) (h : s.Revises service call request t) :
    t.Assures := by
  cases h with
  | created inserted =>
    intro x hx
    rcases holds_of_insertDocument inserted hx with hx | hrow
    · exact hs x hx
    · have hstatus : x.status = .draft :=
        Status.text_injective (congrArg DocumentRow.status hrow)
      have hclosed : x.closedAt = none := congrArg DocumentRow.closedAt hrow
      exact Document.guaranteed_of_draft hstatus hclosed
  | numbered unnumbered replaces =>
    exact hs.of_replaces replaces ((hs _ replaces.held).numbered unnumbered _)
  | moved valid replaces => exact hs.of_replaces replaces ((hs _ replaces.held).moved valid _)

theorem Replaces.exists_continues (h : s.Replaces d e t) (hs : s.Keyed) (hde : d.Continues e)
    {x : Document} (hx : s.Holds x) : ∃ y, t.Holds y ∧ x.Continues y := by
  by_cases hid : x.id = d.id
  · have hrow := hs.document_eq hx.row h.held.row hid
    obtain rfl := h.held.eq_of_encode rfl hx hrow
    exact ⟨e, h.holds_iff.mpr (Or.inl rfl), hde⟩
  · exact ⟨x, h.holds_iff.mpr (Or.inr ⟨hx, hid⟩), .refl x⟩

theorem Revises.exists_continues (h : s.Revises service call request t) (hs : s.Keyed)
    (hd : s.Holds d) : ∃ e, t.Holds e ∧ d.Continues e := by
  cases h with
  | created inserted => exact ⟨d, hd.inserted inserted, .refl d⟩
  | numbered unnumbered replaces =>
    exact replaces.exists_continues hs (Document.continues_numbered unnumbered _) hd
  | moved valid replaces =>
    exact replaces.exists_continues hs (Document.continues_changed valid _) hd

theorem Revises.linesOf (h : s.Revises service call request t) (hd : s.Holds d) :
    t.linesOf d.id = s.linesOf d.id := by
  cases h with
  | created inserted =>
    have hnew := (insertDocument_eq_ok_iff.mp inserted).1 _ hd.row
    exact linesOf_insertDocument inserted hnew
  | numbered _ replaces => exact replaces.linesOf d.id
  | moved _ replaces => exact replaces.linesOf d.id

end Store

namespace Exchange.Revision

variable {service : Service} {job : Job} {e : Exchange} {d : Document}

theorem assures (h : e.Revision service job) (hs : e.before.Assures) : e.after.Assures := by
  cases h with
  | none quiet agrees => exact fun d hd => hs d (agrees.holds_iff.mp hd)
  | some commits revises => exact hs.of_revises revises

theorem exists_continues (h : e.Revision service job) (hs : e.before.Keyed)
    (hd : e.before.Holds d) :
    ∃ x, e.after.Holds x ∧ d.Continues x ∧ e.after.linesOf d.id = e.before.linesOf d.id := by
  cases h with
  | none quiet agrees => exact ⟨d, agrees.holds_iff.mpr hd, .refl d, agrees.linesOf d.id⟩
  | some commits revises =>
    obtain ⟨x, hx, hdx⟩ := revises.exists_continues hs hd
    exact ⟨x, hx, hdx, revises.linesOf hd⟩

end Exchange.Revision

open Course

variable {ι : Type} [DecidableEq ι] {service : Service} {jobs : ι → Job}
  {σ τ : Course ι fun i => (jobs i).Answer}

theorem assures_of_reaches (h : Reaches (.start {} fun i => (jobs i).program service) σ) :
    σ.store.Assures := by
  induction h with
  | refl => exact fun d hd => absurd hd.row List.not_mem_nil
  | tail h hmove ih =>
    have hstaged := staged_of_reaches h (staged_start lawful_empty)
    obtain ⟨hrest, hreplies⟩ := hmove
    exact (hstaged.revision hrest hreplies).1.assures ih

/-- Whatever calls do, a document that loads is continued, with the same lines. -/
theorem continues_of_reaches (h : Reaches σ τ) (hσ : Staged service jobs σ) {d : Document}
    (hd : σ.store.Holds d) :
    ∃ e, τ.store.Holds e ∧ d.Continues e ∧ τ.store.linesOf d.id = σ.store.linesOf d.id := by
  induction h with
  | refl => exact ⟨d, hd, .refl d, rfl⟩
  | tail h hmove ih =>
    obtain ⟨e, he, hde, hlines⟩ := ih
    have hstaged := staged_of_reaches h hσ
    obtain ⟨hrest, hreplies⟩ := hmove
    obtain ⟨f, hf, hef, hlines'⟩ :=
      (hstaged.revision hrest hreplies).1.exists_continues hstaged.lawful.toKeyed he
    rw [hde.id] at hlines'
    exact ⟨f, hf, hde.trans hef, hlines'.trans hlines⟩

/-- From an empty store on, a document that loads is as its status says. Once it is closed or
cancelled nothing of it changes any more, and a number that it has been given stays. -/
theorem status_guarantees (h : Reaches (.start {} fun i => (jobs i).program service) σ)
    {tenant id : Id} {d : Document} (hd : σ.store.findDocument tenant id = .ok (some d)) :
    d.Guaranteed ∧ ∀ τ, Reaches σ τ →
      (d.status = .closed ∨ d.status = .cancelled →
        τ.store.findDocument tenant id = .ok (some d) ∧
          τ.store.findRow tenant id = σ.store.findRow tenant id ∧
          τ.store.linesOf id = σ.store.linesOf id) ∧
        ∀ n, d.number = some n →
          ∃ e, τ.store.findDocument tenant id = .ok (some e) ∧ e.number = some n := by
  have hstaged := staged_of_reaches h (staged_start lawful_empty)
  obtain ⟨rfl, rfl, hheld⟩ := hstaged.lawful.findDocument_eq_some_iff.mp hd
  refine ⟨assures_of_reaches h d hheld, fun τ hτ => ?_⟩
  have hkeyed : τ.store.Keyed := (staged_of_reaches hτ hstaged).lawful.toKeyed
  obtain ⟨e, he, hde, hlines⟩ := continues_of_reaches hτ hstaged hheld
  have hfind : τ.store.findDocument d.tenant d.id = .ok (some e) :=
    hkeyed.findDocument_eq_some_iff.mpr ⟨hde.tenant, hde.id, he⟩
  constructor
  · intro hstatus
    have hfinal : d.status.isFinal = true := by
      rcases hstatus with hstatus | hstatus
      · rw [hstatus]; rfl
      · rw [hstatus]; rfl
    obtain rfl := hde.final hfinal
    have hrow : σ.store.findRow e.tenant e.id = some (.encode e) :=
      (findRow_eq_some_iff hstaged.lawful.toKeyed).mpr ⟨hheld.row, rfl, rfl⟩
    have hrow' : τ.store.findRow e.tenant e.id = some (.encode e) :=
      (findRow_eq_some_iff hkeyed).mpr ⟨he.row, rfl, rfl⟩
    exact ⟨hfind, hrow'.trans hrow.symm, hlines⟩
  · exact fun n hn => ⟨e, hfind, hde.number n hn⟩

theorem status_guarantees_filed :
    ∃ d, filed.store.findDocument (.ofNat 1) filingCall.fresh = .ok (some d) ∧
      d.status = .closed ∧ d.Guaranteed := by
  have hstatus : (filed.store.findDocument (.ofNat 1) filingCall.fresh).toOption.join.map
      Document.status = some .closed := by
    decide +kernel
  obtain ⟨d, hload, hclosed⟩ := Option.map_eq_some_iff.mp hstatus
  have hfind : filed.store.findDocument (.ofNat 1) filingCall.fresh = .ok (some d) := by
    cases hreply : filed.store.findDocument (.ofNat 1) filingCall.fresh with
    | error f =>
      rw [hreply] at hload
      cases hload
    | ok found =>
      rw [hreply] at hload
      exact congrArg Except.ok hload
  exact ⟨d, hfind, hclosed, (status_guarantees (reaches_replay _ _) hfind).1⟩

end Docket
