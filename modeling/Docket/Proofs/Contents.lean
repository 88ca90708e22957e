import Docket.Proofs.Revision

/-! # Lines of documents

The lines of a document are written once, together with its row, and nothing changes or removes
them. From an empty store on, the lines that are stored for a document are therefore those of the
request that it was created by, in their order.
-/

namespace Docket

open Store Simulation

def Line.reread (l : Line) : Except DecodeFailure Line := (LineRow.encode .nil l).decode

theorem Line.decode_encode (id : Id) (l : Line) : (LineRow.encode id l).decode = l.reread := by
  simp only [reread, LineRow.decode, LineRow.encode, LineColumns.mapM, bind_assoc, pure_bind]
  rfl

theorem mapM_decode_encode (id : Id) (lines : List Line) :
    (lines.map (LineRow.encode id)).mapM LineRow.decode = lines.mapM Line.reread := by
  rw [List.mapM_map]
  exact congrArg (fun f => lines.mapM f) (funext (Line.decode_encode id))

namespace NewDocument

def content (new : NewDocument) : List Line :=
  new.lines.zipIdx.map fun (l, n) =>
    { position := Service.positionAfter n
      description := l.description
      quantity := l.quantity
      unitPrice := l.unitPrice
      vatRate := l.vatRate }

theorem length_content (new : NewDocument) : new.content.length = new.lines.length := by
  rw [content, List.length_map, List.length_zipIdx]

theorem getElem_content {new : NewDocument} {n : Nat} (h : n < new.content.length)
    (hn : n < new.lines.length) :
    new.content[n] =
      { position := Service.positionAfter n
        description := new.lines[n].description
        quantity := new.lines[n].quantity
        unitPrice := new.lines[n].unitPrice
        vatRate := new.lines[n].vatRate } := by
  simp only [content, List.getElem_map, List.getElem_zipIdx, Nat.zero_add]

theorem pairwise_content (new : NewDocument) :
    new.content.Pairwise fun a b => a.position ≤ b.position := by
  rw [List.pairwise_iff_getElem]
  intro m n hm hn hmn
  have hlength := new.length_content
  rw [getElem_content hm (hlength ▸ hm), getElem_content hn (hlength ▸ hn)]
  change Service.positionAfter m ≤ Service.positionAfter n
  unfold Service.positionAfter
  omega

end NewDocument

namespace Store

variable {s t : Store} {d saved : Document}

theorem linesOf_inserted (h : s.insertDocument d = .ok (saved, t))
    (hnone : ∀ l ∈ s.lines, l.document ≠ d.id)
    (hsorted : d.lines.Pairwise fun a b => a.position ≤ b.position) :
    t.linesOf d.id = d.lines.map (LineRow.encode d.id) := by
  obtain ⟨-, -, rfl⟩ := insertDocument_eq_ok_iff.mp h
  have hold : s.lines.filter (fun l => decide (l.document = d.id)) = [] :=
    List.filter_eq_nil_iff.mpr fun l hl => by simpa using hnone l hl
  have hnew : (d.lines.map (LineRow.encode d.id)).filter (fun l => decide (l.document = d.id))
      = d.lines.map (LineRow.encode d.id) := by
    refine List.filter_eq_self.mpr fun l hl => ?_
    obtain ⟨line, -, rfl⟩ := List.mem_map.mp hl
    exact decide_eq_true rfl
  rw [linesOf, List.filter_append, hold, hnew, List.nil_append]
  refine List.mergeSort_of_pairwise (List.pairwise_map.mpr (hsorted.imp fun hle => ?_))
  exact decide_eq_true hle

theorem Replaces.anchored {e : Document} (h : s.Replaces d e t) (hs : s.Anchored) :
    t.Anchored := by
  refine hs.of_ids h.lines ?_
  rw [h.documents, List.map_map]
  refine List.map_congr_left fun r _ => ?_
  by_cases hrow : r.id = d.id
  · exact (congrArg DocumentRow.id (if_pos hrow)).trans (h.id.trans hrow.symm)
  · exact congrArg DocumentRow.id (if_neg hrow)

/-- Each stored document has the lines of one of some requests. -/
structure Authored (requests : NewDocument → Prop) (s : Store) : Prop where
  anchored : s.Anchored
  written : ∀ r ∈ s.documents, ∃ new, requests new ∧
    s.linesOf r.id = new.content.map (LineRow.encode r.id)

variable {requests : NewDocument → Prop}

theorem authored_empty : Authored requests {} :=
  ⟨fun _ hl => absurd hl List.not_mem_nil, fun _ hr => absurd hr List.not_mem_nil⟩

theorem Authored.inserted (hs : s.Authored requests) {service : Service} {call : Call} {tenant : Id}
    {new : NewDocument} (hnew : requests new)
    (h : s.insertDocument (service.newDocument call tenant new) = .ok (saved, t)) :
    t.Authored requests := by
  refine ⟨hs.anchored.inserted h, fun r hr => ?_⟩
  have hfresh := (insertDocument_eq_ok_iff.mp h).1
  have hrows := hr
  rw [(insertDocument_eq_ok_iff.mp h).2.2] at hrows
  rcases List.mem_append.mp hrows with hr | hr
  · rw [linesOf_insertDocument h (hfresh r hr)]
    exact hs.written r hr
  · obtain rfl := List.mem_singleton.mp hr
    exact ⟨new, hnew, linesOf_inserted h (hs.anchored.line_ne hfresh) new.pairwise_content⟩

theorem Authored.replaced {e : Document} (hs : s.Authored requests) (h : s.Replaces d e t) :
    t.Authored requests := by
  refine ⟨h.anchored hs.anchored, fun r hr => ?_⟩
  rw [h.linesOf]
  rcases h.mem_documents.mp hr with rfl | ⟨hr, -⟩
  · have hid : (DocumentRow.encode e).id = d.id := h.id
    rw [hid]
    exact hs.written _ h.held.row
  · exact hs.written r hr

theorem Authored.of_revision (hs : s.Authored requests) {service : Service} {job : Job}
    {step : Step} {reply : step.Reply} (h : Exchange.Revision service job ⟨s, step, reply, t⟩)
    (hjob : ∀ new, job.request = .createDocument new → requests new) : t.Authored requests := by
  cases h with
  | none quiet agrees =>
    refine ⟨hs.anchored.of_ids agrees.lines (by rw [agrees.documents]), fun r hr => ?_⟩
    rw [agrees.linesOf]
    exact hs.written r (agrees.documents ▸ hr)
  | some commits revises =>
    obtain ⟨call, request⟩ := job
    cases revises with
    | created inserted => exact hs.inserted (hjob _ rfl) inserted
    | numbered _ replaces => exact hs.replaced replaces
    | moved _ replaces => exact hs.replaced replaces

end Store

open Course

variable {ι : Type} [DecidableEq ι] {service : Service} {jobs : ι → Job}
  {σ : Course ι fun i => (jobs i).Answer}

/-- From an empty store on, the lines of a document are those that a call has asked for. -/
theorem authored_of_reaches (h : Reaches (.start {} fun i => (jobs i).program service) σ) :
    σ.store.Authored fun new => ∃ i, (jobs i).request = .createDocument new := by
  induction h with
  | refl => exact authored_empty
  | tail h hmove ih =>
    have hstaged := staged_of_reaches h (staged_start lawful_empty)
    obtain ⟨hrest, hreplies⟩ := hmove
    exact ih.of_revision (hstaged.revision hrest hreplies).1 fun new hnew => ⟨_, hnew⟩

end Docket
