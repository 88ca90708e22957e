import Docket.Proofs.Success

/-! # Stored documents

A document is stored as a row and its lines. A later version takes the place of the row and leaves
the lines, and no other request touches either, except that which stores a new document.
-/

namespace Docket

open Store Issuing

namespace Store

variable {s t : Store} {d e : Document} {tenant id : Id}

/-- A document that loads from its row and its lines. -/
structure Holds (s : Store) (d : Document) : Prop where
  row : .encode d ∈ s.documents
  lines : (s.linesOf d.id).mapM LineRow.decode = .ok d.lines

/-- All lines are those of a stored document. -/
def Anchored (s : Store) : Prop := ∀ l ∈ s.lines, ∃ r ∈ s.documents, r.id = l.document

theorem Anchored.of_ids (hs : s.Anchored) (hlines : t.lines = s.lines)
    (hids : t.documents.map DocumentRow.id = s.documents.map DocumentRow.id) : t.Anchored := by
  intro l hl
  obtain ⟨r, hr, hrl⟩ := hs l (hlines ▸ hl)
  have hmem : l.document ∈ t.documents.map DocumentRow.id :=
    hids ▸ List.mem_map.mpr ⟨r, hr, hrl⟩
  obtain ⟨q, hq, hql⟩ := List.mem_map.mp hmem
  exact ⟨q, hq, hql⟩

theorem Anchored.inserted (hs : s.Anchored) (h : s.insertDocument d = .ok (e, t)) :
    t.Anchored := by
  obtain ⟨-, -, rfl⟩ := insertDocument_eq_ok_iff.mp h
  intro l hl
  rcases List.mem_append.mp hl with hl | hl
  · obtain ⟨r, hr, hid⟩ := hs l hl
    exact ⟨r, List.mem_append_left _ hr, hid⟩
  · obtain ⟨line, -, rfl⟩ := List.mem_map.mp hl
    exact ⟨_, List.mem_append_right _ (List.mem_singleton_self _), rfl⟩

theorem Anchored.line_ne (hs : s.Anchored) {id : Id} (hnew : ∀ r ∈ s.documents, r.id ≠ id) :
    ∀ l ∈ s.lines, l.document ≠ id := by
  intro l hl hid
  obtain ⟨r, hr, hrow⟩ := hs l hl
  exact hnew r hr (hrow.trans hid)

theorem mem_of_findRow {r : DocumentRow} (h : s.findRow tenant id = some r) :
    r ∈ s.documents ∧ r.id = id ∧ r.tenant = tenant := by
  have hkey : r.id = id ∧ r.tenant = tenant := by simpa using List.find?_some h
  exact ⟨List.mem_of_find?_eq_some h, hkey⟩

theorem findRow_eq_some_iff (hs : s.Keyed) {r : DocumentRow} :
    s.findRow tenant id = some r ↔ r ∈ s.documents ∧ r.id = id ∧ r.tenant = tenant := by
  constructor
  · exact mem_of_findRow
  · rintro ⟨hr, rfl, rfl⟩
    exact findRow_of_mem hs.documentIds hr

theorem findDocument_eq_some_iff_findRow :
    s.findDocument tenant id = .ok (some d) ↔
      s.findRow tenant id = some (.encode d) ∧
        (s.linesOf id).mapM LineRow.decode = .ok d.lines := by
  unfold findDocument
  constructor
  · intro h
    split at h
    · cases h
    · next r hr =>
      cases hlines : (s.linesOf id).mapM LineRow.decode with
      | error f => simp [hlines, lift, bind, Except.bind] at h
      | ok lines =>
        cases hd : r.decode lines with
        | error f => simp [hlines, hd, lift, bind, Except.bind] at h
        | ok e =>
          simp only [hlines, hd, lift, bind, Except.bind, pure, Except.pure, Except.ok.injEq,
            Option.some.injEq] at h
          subst h
          obtain ⟨rfl, rfl⟩ := DocumentRow.decode_eq_ok_iff.mp hd
          exact ⟨hr, rfl⟩
  · rintro ⟨hr, hlines⟩
    have hd : (DocumentRow.encode d).decode d.lines = .ok d :=
      DocumentRow.decode_eq_ok_iff.mpr ⟨rfl, rfl⟩
    simp only [hr, hlines, hd, bind, Except.bind, pure, Except.pure, lift]

theorem Keyed.findDocument_eq_some_iff (hs : s.Keyed) :
    s.findDocument tenant id = .ok (some d) ↔ d.tenant = tenant ∧ d.id = id ∧ s.Holds d := by
  rw [findDocument_eq_some_iff_findRow, findRow_eq_some_iff hs]
  constructor
  · rintro ⟨⟨hrow, rfl, rfl⟩, hlines⟩
    exact ⟨rfl, rfl, hrow, hlines⟩
  · rintro ⟨rfl, rfl, hrow, hlines⟩
    exact ⟨⟨hrow, rfl, rfl⟩, hlines⟩

theorem Holds.eq_of_encode (hd : s.Holds d) (hlines : t.linesOf d.id = s.linesOf d.id)
    (he : t.Holds e) (hrow : DocumentRow.encode e = .encode d) : e = d := by
  have hid : e.id = d.id := congrArg DocumentRow.id hrow
  have hdecode : (DocumentRow.encode e).decode e.lines = .ok e :=
    DocumentRow.decode_eq_ok_iff.mpr ⟨rfl, rfl⟩
  have hcontent : e.lines = d.lines := by
    have h := he.lines
    rw [hid, hlines, hd.lines] at h
    exact (Except.ok.inj h).symm
  exact Except.ok.inj (hdecode.symm.trans (DocumentRow.decode_eq_ok_iff.mpr ⟨hrow, hcontent⟩))

/-- A document gives way to a later version of it. -/
structure Replaces (s : Store) (d e : Document) (t : Store) : Prop where
  held : s.Holds d
  id : e.id = d.id
  tenant : e.tenant = d.tenant
  content : e.lines = d.lines
  documents : t.documents = s.documents.map fun r => if r.id = d.id then .encode e else r
  lines : t.lines = s.lines

theorem Holds.replaces (hd : s.Holds d) (hs : s.Keyed) {f : DocumentRow → DocumentRow}
    (h : s.changeDocument e d.version f = .ok t) (hid : e.id = d.id) (htenant : e.tenant = d.tenant)
    (hcontent : e.lines = d.lines) (hf : f (.encode d) = .encode e) : s.Replaces d e t := by
  obtain ⟨-, rfl⟩ := changeDocument_eq_ok_iff.mp h
  refine ⟨hd, hid, htenant, hcontent, List.map_congr_left fun r hr => ?_, rfl⟩
  by_cases hrow : r.id = d.id
  · obtain rfl := hs.document_eq hr hd.row hrow
    have hmatch : (DocumentRow.encode d).id = e.id ∧ (DocumentRow.encode d).tenant = e.tenant ∧
        (DocumentRow.encode d).version = d.version := ⟨hid.symm, htenant.symm, rfl⟩
    rw [if_pos hmatch, if_pos hrow, hf]
  · rw [if_neg fun hmatch => hrow (hmatch.1.trans hid), if_neg hrow]

theorem Replaces.of_tables {s' t' : Store} (h : s.Replaces d e t)
    (hdocuments : s.documents = s'.documents) (hlines : s.lines = s'.lines)
    (ht : t'.documents = t.documents) (htlines : t'.lines = t.lines) : s'.Replaces d e t' :=
  { held := ⟨hdocuments ▸ h.held.row, by rw [linesOf, ← hlines]; exact h.held.lines⟩
    id := h.id
    tenant := h.tenant
    content := h.content
    documents := (ht.trans h.documents).trans (hdocuments ▸ rfl)
    lines := (htlines.trans h.lines).trans hlines }

theorem Replaces.mem_documents (h : s.Replaces d e t) {r : DocumentRow} :
    r ∈ t.documents ↔ r = .encode e ∨ r ∈ s.documents ∧ r.id ≠ d.id := by
  rw [h.documents, List.mem_map]
  constructor
  · rintro ⟨q, hq, rfl⟩
    by_cases hid : q.id = d.id
    · exact Or.inl (if_pos hid)
    · rw [if_neg hid]
      exact Or.inr ⟨hq, hid⟩
  · rintro (rfl | ⟨hr, hid⟩)
    · exact ⟨_, h.held.row, if_pos rfl⟩
    · exact ⟨r, hr, if_neg hid⟩

theorem Replaces.linesOf (h : s.Replaces d e t) (id : Id) : t.linesOf id = s.linesOf id := by
  rw [Store.linesOf, h.lines, Store.linesOf]

theorem Replaces.holds_iff (h : s.Replaces d e t) {x : Document} :
    t.Holds x ↔ x = e ∨ s.Holds x ∧ x.id ≠ d.id := by
  have hheld : t.Holds e := by
    refine ⟨h.mem_documents.mpr (Or.inl rfl), ?_⟩
    rw [h.linesOf, h.id, h.content]
    exact h.held.lines
  constructor
  · intro hx
    rcases h.mem_documents.mp hx.row with hrow | ⟨hrow, hid⟩
    · exact Or.inl (hheld.eq_of_encode rfl hx hrow)
    · exact Or.inr ⟨⟨hrow, h.linesOf x.id ▸ hx.lines⟩, hid⟩
  · rintro (rfl | ⟨hx, hid⟩)
    · exact hheld
    · exact ⟨h.mem_documents.mpr (Or.inr ⟨hx.row, hid⟩), (h.linesOf x.id).symm ▸ hx.lines⟩

section Insertion

variable {saved : Document}

theorem linesOf_insertDocument (h : s.insertDocument e = .ok (saved, t)) (hid : id ≠ e.id) :
    t.linesOf id = s.linesOf id := by
  obtain ⟨-, -, rfl⟩ := insertDocument_eq_ok_iff.mp h
  have hnew : (e.lines.map (LineRow.encode e.id)).filter (fun l => l.document = id) = [] := by
    refine List.filter_eq_nil_iff.mpr fun l hl => ?_
    obtain ⟨line, -, rfl⟩ := List.mem_map.mp hl
    exact decide_eq_false hid.symm ▸ Bool.false_ne_true
  simp only [linesOf, List.filter_append, hnew, List.append_nil]

theorem Holds.inserted (hd : s.Holds d) (h : s.insertDocument e = .ok (saved, t)) : t.Holds d := by
  have hnew := (insertDocument_eq_ok_iff.mp h).1 _ hd.row
  refine ⟨?_, (linesOf_insertDocument h hnew).symm ▸ hd.lines⟩
  obtain ⟨-, -, rfl⟩ := insertDocument_eq_ok_iff.mp h
  exact List.mem_append_left _ hd.row

theorem holds_of_insertDocument (h : s.insertDocument e = .ok (saved, t)) (hd : t.Holds d) :
    s.Holds d ∨ DocumentRow.encode d = .encode e := by
  have hrow := hd.row
  obtain ⟨hnew, -, ht⟩ := insertDocument_eq_ok_iff.mp h
  rw [ht, List.mem_append, List.mem_singleton] at hrow
  rcases hrow with hrow | hrow
  · exact Or.inl ⟨hrow, linesOf_insertDocument h (hnew _ hrow) ▸ hd.lines⟩
  · exact Or.inr hrow

end Insertion

end Store

namespace Step

def changesDocuments : Step → Bool
  | .insertDocument _ => true
  | .assignNumber _ _ _ => true
  | .applyChange _ _ _ => true
  | _ => false

end Step

namespace Store

variable {s t : Store} {step : Step}

structure Agrees (s t : Store) : Prop where
  documents : t.documents = s.documents
  lines : t.lines = s.lines
  changes : t.changes = s.changes

theorem Agrees.refl (s : Store) : s.Agrees s := ⟨rfl, rfl, rfl⟩

theorem Agrees.linesOf (h : s.Agrees t) (id : Id) : t.linesOf id = s.linesOf id := by
  rw [Store.linesOf, h.lines, Store.linesOf]

theorem Agrees.findDocument (h : s.Agrees t) {tenant id : Id} :
    t.findDocument tenant id = s.findDocument tenant id := by
  simp only [Store.findDocument, findRow, h.documents, h.linesOf]

theorem Agrees.holds_iff (h : s.Agrees t) {d : Document} : t.Holds d ↔ s.Holds d := by
  constructor
  · exact fun hd => ⟨h.documents ▸ hd.row, h.linesOf d.id ▸ hd.lines⟩
  · exact fun hd => ⟨h.documents.symm ▸ hd.row, (h.linesOf d.id).symm ▸ hd.lines⟩

theorem agrees_counters (s : Store) (counters : List CounterRow) :
    s.Agrees { s with counters := counters } := ⟨rfl, rfl, rfl⟩

/-- All other requests write counters only. -/
theorem Keyed.agrees_perform (hs : s.Keyed) (h : step.changesDocuments = false) :
    s.Agrees (s.perform step).2 := by
  cases step with
  | insertCounter c =>
    simp only [perform, insertCounter]
    cases hadd : s.addCounter (.encode c) with
    | error f => exact .refl s
    | ok t =>
      obtain ⟨-, -, rfl⟩ := addCounter_eq_ok_iff.mp hadd
      exact agrees_counters s _
  | updateSettings c =>
    simp only [perform, updateSettings]
    split
    · exact .refl s
    · exact agrees_counters s _
  | retireCounter tenant id stamp =>
    simp only [perform, retireCounter]
    split
    · exact agrees_counters s _
    · exact .refl s
  | allocate a =>
    refine commit_induction (P := fun t => s.Agrees t) (.refl s) fun c t hadvance => ?_
    rw [(hs.advance_eq_ok_iff.mp hadvance).tables]
    exact agrees_counters s _
  | insertDocument | assignNumber | applyChange => cases h
  | _ => exact .refl s

theorem Replies.agrees {reply : step.Reply} (h : s.Replies step reply t) (hs : s.Keyed)
    (hstep : step.changesDocuments = false) : s.Agrees t := by
  cases h with
  | served => exact hs.agrees_perform hstep
  | refused => exact .refl s

end Store

end Docket
