import Docket.Proofs.Contents
import Docket.Proofs.Entries
import Docket.Proofs.Ledger
import Docket.Proofs.Precision

/-! # Documents read back

A document that is created is answered from the request and loaded from the store. The two are the
same in all columns, and in the order, the positions and the descriptions of the lines; their
amounts are the same exactly if every amount survives being stored. A document with an amount that
is too large cannot be loaded at all.
-/

namespace Docket

open Store Decimal

namespace Line

def amounts (l : Line) : List Decimal := [l.quantity, l.unitPrice, l.vatRate]

/-- A line and what it reads back as. -/
structure ReloadsAs (l m : Line) : Prop where
  position : m.position = l.position
  description : m.description = l.description
  quantity : l.quantity.reloaded? = some m.quantity
  unitPrice : l.unitPrice.reloaded? = some m.unitPrice
  vatRate : l.vatRate.reloaded? = some m.vatRate

/-- Lines that differ in nothing but how their amounts are written. -/
structure Resembles (l m : Line) : Prop extends l.Matches m where
  position : m.position = l.position
  description : m.description = l.description

variable {l m : Line}

theorem readAmount_ofDecimal (a : Decimal) : LineRow.readAmount (.ofDecimal a) =
    match a.reloaded? with
    | some b => .ok b
    | none => .error .amount := rfl

theorem reread_eq_ok_iff : l.reread = .ok m ↔ l.ReloadsAs m := by
  unfold reread LineRow.decode LineRow.encode LineColumns.map LineColumns.mapM LineColumns.of
  simp only [readAmount_ofDecimal]
  constructor
  · intro h
    cases hquantity : l.quantity.reloaded? with
    | none => simp [hquantity, bind, Except.bind] at h
    | some q =>
      cases hprice : l.unitPrice.reloaded? with
      | none => simp [hquantity, hprice, bind, Except.bind] at h
      | some p =>
        cases hrate : l.vatRate.reloaded? with
        | none => simp [hquantity, hprice, hrate, bind, Except.bind] at h
        | some r =>
          simp only [hquantity, hprice, hrate] at h
          cases Except.ok.inj h
          exact ⟨rfl, rfl, hquantity, hprice, hrate⟩
  · intro h
    rw [h.quantity, h.unitPrice, h.vatRate, ← h.position, ← h.description]
    rfl

theorem reread_of_none (h : ∃ a ∈ l.amounts, a.reloaded? = none) : l.reread = .error .amount := by
  unfold reread LineRow.decode LineRow.encode LineColumns.map LineColumns.mapM LineColumns.of
  simp only [readAmount_ofDecimal]
  obtain ⟨a, ha, hnone⟩ := h
  cases hquantity : l.quantity.reloaded? with
  | none => rfl
  | some q =>
    cases hprice : l.unitPrice.reloaded? with
    | none => rfl
    | some p =>
      cases hrate : l.vatRate.reloaded? with
      | none => rfl
      | some r =>
        simp only [amounts, List.mem_cons, List.not_mem_nil, or_false] at ha
        rcases ha with rfl | rfl | rfl <;> simp_all

theorem exists_reloadsAs (h : ∀ a ∈ l.amounts, a.reloaded? ≠ none) : ∃ m, l.ReloadsAs m := by
  simp only [amounts, List.forall_mem_cons, Option.ne_none_iff_exists'] at h
  obtain ⟨⟨q, hq⟩, ⟨p, hp⟩, ⟨r, hr⟩, -⟩ := h
  exact ⟨⟨l.position, l.description, q, p, r⟩, rfl, rfl, hq, hp, hr⟩

theorem ReloadsAs.resembles_iff (h : l.ReloadsAs m) :
    l.Resembles m ↔ ∀ a ∈ l.amounts, a.Survives := by
  have hsurvives {a b : Decimal} (hab : a.reloaded? = some b) : a.Survives ↔ a.toRat = b.toRat := by
    rw [Survives, hab, Option.map_some, Option.some.injEq, eq_comm]
  simp only [amounts, List.forall_mem_cons, hsurvives h.quantity, hsurvives h.unitPrice,
    hsurvives h.vatRate]
  exact ⟨fun hm => ⟨hm.quantity, hm.unitPrice, hm.vatRate, nofun⟩,
    fun ⟨hq, hp, hr, _⟩ => ⟨⟨hq, hp, hr⟩, h.position, h.description⟩⟩

end Line

section Lines

variable {lines read : List Line}

theorem mapM_reread_eq_ok_iff :
    lines.mapM Line.reread = .ok read ↔ List.Forall₂ Line.ReloadsAs lines read := by
  induction lines generalizing read with
  | nil => simp [eq_comm, pure, Except.pure]
  | cons l lines ih =>
    rw [List.mapM_cons, List.forall₂_cons_left_iff]
    constructor
    · intro h
      cases hl : l.reread with
      | error f => simp [hl, bind, Except.bind] at h
      | ok m =>
        cases hlines : lines.mapM Line.reread with
        | error f => simp [hl, hlines, bind, Except.bind] at h
        | ok rest =>
          simp only [hl, hlines] at h
          cases Except.ok.inj h
          exact ⟨m, rest, Line.reread_eq_ok_iff.mp hl, ih.mp hlines, rfl⟩
    · rintro ⟨m, rest, hl, hlines, rfl⟩
      rw [Line.reread_eq_ok_iff.mpr hl, ih.mpr hlines]
      rfl

theorem mapM_reread_of_none (h : ∃ l ∈ lines, ∃ a ∈ l.amounts, a.reloaded? = none) :
    lines.mapM Line.reread = .error .amount := by
  induction lines with
  | nil => simp at h
  | cons l lines ih =>
    rw [List.mapM_cons]
    by_cases hl : ∃ a ∈ l.amounts, a.reloaded? = none
    · rw [Line.reread_of_none hl]
      rfl
    · obtain ⟨m, hm⟩ := Line.exists_reloadsAs fun a ha hnone => hl ⟨a, ha, hnone⟩
      obtain ⟨k, hk, hnone⟩ := h
      rw [Line.reread_eq_ok_iff.mpr hm,
        ih ⟨k, (List.mem_cons.mp hk).resolve_left fun h => hl (h ▸ hnone), hnone⟩]
      rfl

theorem exists_mapM_reread (h : ∀ l ∈ lines, ∀ a ∈ l.amounts, a.reloaded? ≠ none) :
    ∃ read, lines.mapM Line.reread = .ok read := by
  induction lines with
  | nil => exact ⟨[], rfl⟩
  | cons l lines ih =>
    obtain ⟨hl, hlines⟩ := List.forall_mem_cons.mp h
    obtain ⟨m, hm⟩ := Line.exists_reloadsAs hl
    obtain ⟨read, hread⟩ := ih hlines
    exact ⟨m :: read, mapM_reread_eq_ok_iff.mpr (.cons hm (mapM_reread_eq_ok_iff.mp hread))⟩

theorem forall₂_resembles_iff (h : List.Forall₂ Line.ReloadsAs lines read) :
    List.Forall₂ Line.Resembles lines read ↔ ∀ l ∈ lines, ∀ a ∈ l.amounts, a.Survives := by
  induction h with
  | nil => simp
  | cons hl hlines ih => rw [List.forall₂_cons, hl.resembles_iff, ih, List.forall_mem_cons]

/-- Lines read back alike exactly if all their amounts survive. -/
theorem exists_reread_resembles_iff :
    (∃ read, lines.mapM Line.reread = .ok read ∧ List.Forall₂ Line.Resembles lines read) ↔
      ∀ l ∈ lines, ∀ a ∈ l.amounts, a.Survives := by
  constructor
  · rintro ⟨read, hread, hmatch⟩
    exact (forall₂_resembles_iff (mapM_reread_eq_ok_iff.mp hread)).mp hmatch
  · intro hsurvive
    obtain ⟨read, hread⟩ := exists_mapM_reread fun l hl a ha hnone => by
      simpa [Survives, hnone] using hsurvive l hl a ha
    exact ⟨read, hread, (forall₂_resembles_iff (mapM_reread_eq_ok_iff.mp hread)).mpr hsurvive⟩

end Lines

/-- Documents that differ in nothing but how their amounts are written. -/
structure Document.Resembles (d e : Document) : Prop where
  columns : e = { d with lines := e.lines }
  lines : List.Forall₂ Line.Resembles d.lines e.lines

theorem Document.Resembles.grossTotal {d e : Document} (h : d.Resembles e) :
    d.grossTotal.map toRat = e.grossTotal.map toRat :=
  grossTotal_congr (h.lines.imp fun _ _ hl => hl.toMatches)

namespace NewDocument

def amounts (new : NewDocument) : List Decimal :=
  new.lines.flatMap fun l => [l.quantity, l.unitPrice, l.vatRate]

theorem amounts_eq (new : NewDocument) : new.amounts = new.content.flatMap Line.amounts := by
  unfold amounts content
  rw [List.flatMap_map, ← List.zipIdx_map_fst 0 new.lines, List.flatMap_map]
  simp [Line.amounts]

theorem forall_amounts_iff {new : NewDocument} {P : Decimal → Prop} :
    (∀ a ∈ new.amounts, P a) ↔ ∀ l ∈ new.content, ∀ a ∈ l.amounts, P a := by
  rw [amounts_eq]
  simp only [List.mem_flatMap, forall_exists_index, and_imp]
  exact ⟨fun h l hl a ha => h a l hl ha, fun h a l hl ha => h l hl a ha⟩

end NewDocument

namespace Store

variable {s t : Store} {d saved : Document}

theorem findDocument_inserted (h : s.insertDocument d = .ok (saved, t)) (hs : s.Anchored)
    (hsorted : d.lines.Pairwise fun a b => a.position ≤ b.position) :
    t.findDocument d.tenant d.id
      = lift ((d.lines.mapM Line.reread).map fun lines => some { d with lines := lines }) := by
  have hlines := linesOf_inserted h (hs.line_ne (insertDocument_eq_ok_iff.mp h).1) hsorted
  have hrow : t.findRow d.tenant d.id = some (.encode d) := by
    obtain ⟨hfresh, -, rfl⟩ := insertDocument_eq_ok_iff.mp h
    have hnone : s.documents.find? (fun r => decide (r.id = d.id ∧ r.tenant = d.tenant)) = none :=
      List.find?_eq_none.mpr fun r hr => by simp [hfresh r hr]
    rw [findRow, List.find?_append, hnone, Option.none_or]
    simp [DocumentRow.encode]
  have hdecode (lines : List Line) :
      (DocumentRow.encode d).decode lines = .ok { d with lines := lines } :=
    DocumentRow.decode_eq_ok_iff.mpr ⟨rfl, rfl⟩
  unfold findDocument
  simp only [hrow, hlines, mapM_decode_encode, hdecode]
  cases d.lines.mapM Line.reread <;> rfl

end Store

namespace Service

open Docket.Action

variable {service : Service} {call : Call} {tenant id : Id} {s : Store} {d : Document}

theorem execute_getDocument (hcall : call.ActsFor tenant)
    (h : s.findDocument tenant id = .ok (some d)) :
    service.execute call (.getDocument id) s = (.ok ⟨d, []⟩, s) := by
  change (getDocument call id).run.run s = _
  rw [getDocument, run_scope_bind hcall, run_start_bind hcall, run_load_bind, h]
  rfl

theorem execute_getDocument_of_error (hcall : call.ActsFor tenant) {f : StoreFailure}
    (h : s.findDocument tenant id = .error f) :
    service.execute call (.getDocument id) s = (.error f.toFailure, s) := by
  change (getDocument call id).run.run s = _
  rw [getDocument, run_scope_bind hcall, run_start_bind hcall, run_load_bind, h]
  rfl

theorem execute_getDocument_created {next : Call} {t : Store} {new : NewDocument}
    {created : Outcome Document}
    (hcreate : service.execute call (.createDocument new) s = (.ok created, t)) (hs : s.Anchored)
    (htenant : call.caller.tenant = some tenant) (hnext : next.ActsFor tenant) :
    created.value = service.newDocument call tenant new ∧
    (∀ lines, new.content.mapM Line.reread = .ok lines →
      service.execute next (.getDocument created.value.id) t
        = (.ok ⟨{ created.value with lines := lines }, []⟩, t)) ∧
    ∀ f, new.content.mapM Line.reread = .error f →
      service.execute next (.getDocument created.value.id) t
        = (.error f.toStoreFailure.toFailure, t) := by
  obtain ⟨tenant', d, hscope, hinsert, rfl⟩ := createDocument_succeeds hcreate
  obtain rfl : tenant' = tenant := Option.some.inj (hscope.symm.trans htenant)
  obtain rfl : d = service.newDocument call tenant' new := (insertDocument_eq_ok_iff.mp hinsert).2.1
  have hfind := findDocument_inserted hinsert hs new.pairwise_content
  refine ⟨rfl, fun lines hlines => execute_getDocument hnext ?_, fun f hlines =>
    execute_getDocument_of_error hnext ?_⟩
  · exact hfind.trans (congrArg (fun x => lift (Except.map _ x)) hlines)
  · exact hfind.trans (congrArg (fun x => lift (Except.map _ x)) hlines)

end Service

section Run

open Simulation Course

variable {ι : Type} [DecidableEq ι] {service : Service} {jobs : ι → Job}
  {σ : Course ι fun i => (jobs i).Answer} {call next : Call} {tenant : Id} {new : NewDocument}
  {created : Outcome Document} {t : Store}

/-- A document that is created after any run and asked for next is answered in the same columns,
with the lines of the request in their order at positions from 1 on. It is the same document with
the same total exactly if every amount survives being stored, as every durable one does. Otherwise
its amounts are those that were loaded, or one of them was too large and it is not answered. -/
theorem created_read_back_iff (h : Reaches (.start {} fun i => (jobs i).program service) σ)
    (hcreate : service.execute call (.createDocument new) σ.store = (.ok created, t))
    (htenant : call.caller.tenant = some tenant) (hlength : new.lines.length < int32Bound)
    (hnext : next.ActsFor tenant) :
    (created.value.lines.length = new.lines.length ∧
      ∀ n (hn : n < new.lines.length), created.value.lines[n]? = some
        { position := n + 1
          description := new.lines[n].description
          quantity := new.lines[n].quantity
          unitPrice := new.lines[n].unitPrice
          vatRate := new.lines[n].vatRate }) ∧
    ((∃ d, service.execute next (.getDocument created.value.id) t = (.ok ⟨d, []⟩, t) ∧
        created.value.Resembles d ∧
        created.value.grossTotal.map toRat = d.grossTotal.map toRat) ↔
      ∀ a ∈ new.amounts, a.Survives) ∧
    (∀ a ∈ new.amounts, a.Durable → a.Survives) ∧
    ((∀ a ∈ new.amounts, |a.toRat| < loadLimit) → ∃ lines,
      service.execute next (.getDocument created.value.id) t
        = (.ok ⟨{ created.value with lines := lines }, []⟩, t) ∧
      List.Forall₂ Line.ReloadsAs created.value.lines lines) ∧
    ((∃ a ∈ new.amounts, loadLimit ≤ |a.toRat|) →
      service.execute next (.getDocument created.value.id) t
        = (.error DecodeFailure.amount.toStoreFailure.toFailure, t)) := by
  have hanchored := (authored_of_reaches h).anchored
  obtain ⟨hcreated, hfound, hfailed⟩ :=
    Service.execute_getDocument_created hcreate hanchored htenant hnext
  have hlines : created.value.lines = new.content := congrArg Document.lines hcreated
  refine ⟨?positions, ?same, fun a _ => Durable.survives, ?found, ?refused⟩
  case positions =>
    rw [hlines, new.length_content]
    refine ⟨rfl, fun n hn => ?_⟩
    have hcontent : n < new.content.length := new.length_content ▸ hn
    have hposition : Service.positionAfter n = n + 1 := by
      unfold Service.positionAfter
      omega
    rw [List.getElem?_eq_getElem hcontent, NewDocument.getElem_content hcontent hn, hposition]
  case same =>
    rw [NewDocument.forall_amounts_iff, ← exists_reread_resembles_iff]
    constructor
    · rintro ⟨d, hget, hresembles, -⟩
      cases hread : new.content.mapM Line.reread with
      | error f => cases (hfailed f hread).symm.trans hget
      | ok lines =>
        have hreply := congrArg Prod.fst ((hfound lines hread).symm.trans hget)
        obtain rfl : { created.value with lines := lines } = d :=
          congrArg Outcome.value (Except.ok.inj hreply)
        exact ⟨lines, rfl, hlines ▸ hresembles.lines⟩
    · rintro ⟨lines, hread, hmatch⟩
      have hresembles : created.value.Resembles { created.value with lines := lines } :=
        ⟨rfl, hlines ▸ hmatch⟩
      exact ⟨_, hfound lines hread, hresembles, hresembles.grossTotal⟩
  case found =>
    intro hsmall
    rw [NewDocument.forall_amounts_iff] at hsmall
    obtain ⟨lines, hread⟩ := exists_mapM_reread fun l hl a ha hnone =>
      (hsmall l hl a ha).not_ge (reloaded?_eq_none_iff.mp hnone)
    exact ⟨lines, hfound lines hread, hlines ▸ mapM_reread_eq_ok_iff.mp hread⟩
  case refused =>
    rintro ⟨a, ha, hlarge⟩
    rw [NewDocument.amounts_eq, List.mem_flatMap] at ha
    obtain ⟨l, hl, ha⟩ := ha
    exact hfailed _ (mapM_reread_of_none ⟨l, hl, a, ha, reloaded?_eq_none_iff.mpr hlarge⟩)

end Run

/-- A draft with amounts as they are common: fractions with three places, a negative price, zeros at
the end, and as many digits as a durable amount may have. -/
def commonDraft : NewDocument :=
  { filedDraft with
    lines :=
      [{ description := "a"
         quantity := .ofParts 12345678 3
         unitPrice := .ofParts (-1990) 2
         vatRate := .ofParts 19250 3 },
       { description := "b"
         quantity := .ofParts 999999999999999 12
         unitPrice := .ofParts 1 28
         vatRate := .zero }] }

theorem created_read_back_common :
    ∃ created t d,
      Service.execute {} filingCall (.createDocument commonDraft) {} = (.ok created, t) ∧
      Service.execute {} filingCall (.getDocument created.value.id) t = (.ok ⟨d, []⟩, t) ∧
      created.value.Resembles d ∧
      created.value.grossTotal.map toRat = d.grossTotal.map toRat := by
  obtain ⟨created, t, hcreate⟩ : ∃ created t,
      Service.execute {} filingCall (.createDocument commonDraft) {} = (.ok created, t) :=
    ⟨_, _, rfl⟩
  have hreached : Course.Reaches (.start {} fun i => (filing i).program {})
      (.start {} fun i => (filing i).program {}) := .refl
  have hcall : filingCall.ActsFor (.ofNat 1) := ⟨rfl, rfl⟩
  have hsurvive : ∀ a ∈ commonDraft.amounts, a.Survives := by decide +kernel
  obtain ⟨d, hget⟩ :=
    (created_read_back_iff hreached hcreate rfl (by decide) hcall).2.1.mpr hsurvive
  exact ⟨created, t, d, hcreate, hget⟩

/-- A draft of the greatest amount with sixteen digits, four of them places. -/
def longDraft : NewDocument :=
  { filedDraft with
    lines :=
      [{ description := ""
         quantity := .ofParts 9999999999999999 4
         unitPrice := .ofParts 1000 0
         vatRate := .zero }] }

/-- A draft of the greatest decimal. -/
def greatestDraft : NewDocument :=
  { filedDraft with
    lines :=
      [{ description := ""
         quantity := .ofParts (bound - 1) 0
         unitPrice := .zero
         vatRate := .zero }] }

/-- A document that was created may be answered with other amounts and another total, or not at
all. -/
theorem created_read_back_otherwise :
    (∃ created t d,
      Service.execute {} filingCall (.createDocument longDraft) {} = (.ok created, t) ∧
      Service.execute {} filingCall (.getDocument created.value.id) t = (.ok ⟨d, []⟩, t) ∧
      created.value.grossTotal.map toRat = .ok (9999999999999999 / 10) ∧
      d.grossTotal.map toRat = .ok 1000000000000000) ∧
    ∃ created t,
      Service.execute {} filingCall (.createDocument greatestDraft) {} = (.ok created, t) ∧
      Service.execute {} filingCall (.getDocument created.value.id) t
        = (.error DecodeFailure.amount.toStoreFailure.toFailure, t) := by
  have hanchored : ({} : Store).Anchored := fun _ hl => absurd hl List.not_mem_nil
  have hcall : filingCall.ActsFor (.ofNat 1) := ⟨rfl, rfl⟩
  refine ⟨?otherwise, ?refused⟩
  case otherwise =>
    let lines : List Line :=
      [{ position := 1
         description := ""
         quantity := .ofParts 1000000000000 0
         unitPrice := .ofParts 1000 0
         vatRate := .zero }]
    have hread : longDraft.content.mapM Line.reread = .ok lines := by decide +kernel
    obtain ⟨created, t, hcreate⟩ : ∃ created t,
        Service.execute {} filingCall (.createDocument longDraft) {} = (.ok created, t) :=
      ⟨_, _, rfl⟩
    obtain ⟨hcreated, hfound, -⟩ :=
      Service.execute_getDocument_created hcreate hanchored rfl hcall
    refine ⟨created, t, _, hcreate, hfound lines hread, ?_, ?_⟩
    · rw [hcreated]
      decide +kernel
    · rw [hcreated]
      decide +kernel
  case refused =>
    have hread : greatestDraft.content.mapM Line.reread = .error .amount := by decide +kernel
    obtain ⟨created, t, hcreate⟩ : ∃ created t,
        Service.execute {} filingCall (.createDocument greatestDraft) {} = (.ok created, t) :=
      ⟨_, _, rfl⟩
    obtain ⟨-, -, hfailed⟩ := Service.execute_getDocument_created hcreate hanchored rfl hcall
    exact ⟨created, t, hcreate, hfailed .amount hread⟩

end Docket
