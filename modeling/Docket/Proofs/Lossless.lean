import Docket.Proofs.Rows

/-! # Rows that lose nothing

Counters, documents and changes of status are written to rows of their own kinds and read back.
Nothing is lost or mixed up on the way, in either direction. A row is read exactly if its padding is
in range, or if its words are those of statuses.
-/

namespace Docket

open Store

namespace Status

/-- The words for the statuses. -/
def words : List String := ["DRAFT", "OPEN", "CLOSED", "CANCELLED"]

theorem mem_words_iff {text : String} : text ∈ words ↔ ∃ status : Status, text = status.text := by
  constructor
  · intro h
    have hall : text ∈ all.map Status.text := h
    obtain ⟨status, -, hstatus⟩ := List.mem_map.mp hall
    exact ⟨status, hstatus.symm⟩
  · rintro ⟨status, rfl⟩
    cases status <;> simp [words, Status.text]

end Status

namespace Store

variable {α ρ : Type}

/-- Values that fit are written as rows and read back unchanged. Of the rows that a table can hold,
exactly those with a meaning are read, and what they are read as fits and is written as the same
row again. -/
structure Lossless (write : α → ρ) (read : ρ → Except DecodeFailure α) (Fits : α → Prop)
    (Holds Means : ρ → Prop) : Prop where
  read_write : ∀ a, Fits a → read (write a) = .ok a
  write_read : ∀ r a, Holds r → read r = .ok a → Fits a ∧ write a = r
  accepts_iff : ∀ r, Holds r → ((∃ a, read r = .ok a) ↔ Means r)

/-- A row has a year, if any, that fits its column. -/
def CounterRow.Dated (r : CounterRow) : Prop := ∀ y ∈ r.year, -int32Bound ≤ y ∧ y < int32Bound

theorem CounterRow.lossless :
    Lossless encode decode Counter.Storable CounterRow.Dated
      fun r => 1 ≤ r.padding ∧ r.padding ≤ 10 := by
  constructor
  case read_write => exact fun c hc => decode_encode hc
  case write_read =>
    intro r c _ h
    obtain ⟨rfl, hc⟩ := decode_eq_ok_iff.mp h
    exact ⟨hc, rfl⟩
  case accepts_iff =>
    intro r hr
    simp only [decode_eq_ok_iff, exists_storable_iff]
    exact and_iff_left hr

theorem LineColumns.of_line {document : Id} {r : LineColumns Decimal} (h : r.document = document) :
    of document r.line = r := by
  subst h
  rfl

/-- The row of a document and the rows of its lines. -/
structure DocumentEntity where
  row : DocumentRow
  lines : List (LineColumns Decimal)

namespace DocumentEntity

def encode (d : Document) : DocumentEntity := ⟨.encode d, d.lines.map (LineColumns.of d.id)⟩

def decode (e : DocumentEntity) : Except DecodeFailure Document :=
  e.row.decode (e.lines.map LineColumns.line)

/-- The lines are those of the document. -/
def Owned (e : DocumentEntity) : Prop := ∀ l ∈ e.lines, l.document = e.row.id

variable {e : DocumentEntity} {d : Document}

theorem decode_eq_ok_iff (he : e.Owned) : e.decode = .ok d ↔ e = encode d := by
  obtain ⟨r, lines⟩ := e
  rw [decode, DocumentRow.decode_eq_ok_iff]
  constructor
  · rintro ⟨rfl, hlines⟩
    have hof : ∀ l ∈ lines, LineColumns.of d.id l.line = l := fun l hl =>
      LineColumns.of_line (he l hl)
    have hsame : d.lines.map (LineColumns.of d.id) = lines := by
      rw [← hlines, List.map_map]
      exact (List.map_congr_left hof).trans (List.map_id' lines)
    rw [encode, hsame]
  · intro h
    obtain ⟨rfl, rfl⟩ := DocumentEntity.mk.inj h
    exact ⟨rfl, by rw [List.map_map]; exact List.map_id' d.lines⟩

theorem owned_encode (d : Document) : (encode d).Owned := by
  intro l hl
  obtain ⟨_, -, rfl⟩ := List.mem_map.mp hl
  rfl

theorem lossless :
    Lossless encode decode (fun _ => True) Owned fun e => e.row.status ∈ Status.words := by
  constructor
  case read_write => exact fun d _ => (decode_eq_ok_iff (owned_encode d)).mpr rfl
  case write_read => exact fun e d he h => ⟨trivial, ((decode_eq_ok_iff he).mp h).symm⟩
  case accepts_iff =>
    intro e he
    rw [Status.mem_words_iff]
    constructor
    · rintro ⟨d, h⟩
      obtain rfl := (decode_eq_ok_iff he).mp h
      exact ⟨d.status, rfl⟩
    · rintro ⟨status, hstatus⟩
      rw [decode, DocumentRow.decode, hstatus, Status.ofText?_text]
      exact ⟨_, rfl⟩

end DocumentEntity

theorem ChangeRow.lossless (tenant : Id) :
    Lossless (encode tenant) decode (fun _ => True) (fun r => r.tenant = tenant)
      fun r => r.source ∈ Status.words ∧ r.target ∈ Status.words := by
  constructor
  case read_write => exact fun c _ => decode_encode tenant c
  case write_read =>
    rintro r c rfl h
    exact ⟨trivial, (decode_eq_ok_iff.mp h).symm⟩
  case accepts_iff =>
    intro r _
    simp only [Status.mem_words_iff, ← readStatus_eq_ok_iff]
    constructor
    · rintro ⟨c, h⟩
      have hr := decode_eq_ok_iff.mp h
      exact ⟨⟨c.source, readStatus_eq_ok_iff.mpr (congrArg source hr)⟩,
        ⟨c.target, readStatus_eq_ok_iff.mpr (congrArg target hr)⟩⟩
    · rintro ⟨⟨source, hsource⟩, ⟨target, htarget⟩⟩
      rw [decode, hsource, htarget]
      exact ⟨_, rfl⟩

/-- Counters with a padding from 1 to 10, documents with their lines and changes with their tenant
go to rows and back unchanged. The rows that are read are exactly those of counters with such a
padding, and those of documents and changes with words for statuses; they are written again as they
were. -/
theorem rows_lossless (tenant : Id) :
    Lossless CounterRow.encode CounterRow.decode Counter.Storable CounterRow.Dated
        (fun r => 1 ≤ r.padding ∧ r.padding ≤ 10) ∧
      Lossless DocumentEntity.encode DocumentEntity.decode (fun _ => True) DocumentEntity.Owned
        (fun e => e.row.status ∈ Status.words) ∧
      Lossless (ChangeRow.encode tenant) ChangeRow.decode (fun _ => True)
        (fun r => r.tenant = tenant)
        (fun r => r.source ∈ Status.words ∧ r.target ∈ Status.words) :=
  ⟨CounterRow.lossless, DocumentEntity.lossless, ChangeRow.lossless tenant⟩

/-- The row of a counter that has handed out no number yet. -/
def CounterRow.unused (padding : Int) : CounterRow :=
  { id := .nil
    tenant := .nil
    documentType := .nil
    series := ""
    year := some 2024
    value := 0
    lead := none
    padding := padding
    pattern := none
    resets := true
    notes := none
    created := default
    updated := default
    retired := none }

theorem CounterRow.unused_dated (padding : Int) : (unused padding).Dated := by
  intro y hy
  obtain rfl : 2024 = y := Option.some.inj hy
  decide

theorem rows_lossless_padding :
    (∃ c, (CounterRow.unused 10).decode = .ok c) ∧
      (¬ ∃ c, (CounterRow.unused 11).decode = .ok c) ∧
      ¬ ∃ c, (CounterRow.unused (-1)).decode = .ok c := by
  have hread : ∀ padding, (∃ c, (CounterRow.unused padding).decode = .ok c) ↔
      1 ≤ padding ∧ padding ≤ 10 :=
    fun padding => (rows_lossless .nil).1.accepts_iff _ (CounterRow.unused_dated padding)
  simp only [hread]
  decide

end Store

end Docket
