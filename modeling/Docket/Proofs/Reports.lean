import Mathlib.Data.List.Nodup
import Docket.Audit.Encoding
import Docket.Proofs.Moments
import Docket.Proofs.Parsing

/-! # Reading reported events

Each event is written as an object, and the same event is read back from its text. So no two events
are written alike, and the kind of an event can be told from the first field.
-/

namespace Docket

open Docket.Text Time

namespace Id

variable {ds : List Char}

theorem ungrouped?_of_groups {as bs cs ds : List Char} (es : List Char) (ha : as.length = 8)
    (hb : bs.length = 4) (hc : cs.length = 4) (hd : ds.length = 4) :
    ungrouped? (as ++ '-' :: (bs ++ '-' :: (cs ++ '-' :: (ds ++ '-' :: es))))
      = some (as ++ bs ++ cs ++ ds ++ es) := by
  simp [ungrouped?, List.drop_append, List.drop_eq_nil_of_le, ha, hb, hc, hd]

theorem ungrouped?_grouped (h : ds.length = 32) : ungrouped? (grouped ds) = some ds := by
  have hgroups := ungrouped?_of_groups (ds.drop 20) (by simp [h] : (ds.take 8).length = 8)
    (by simp [h] : ((ds.drop 8).take 4).length = 4) (by simp [h] : ((ds.drop 12).take 4).length = 4)
    (by simp [h] : ((ds.drop 16).take 4).length = 4)
  have hjoin : ds.take 8 ++ (ds.drop 8).take 4 ++ (ds.drop 12).take 4 ++ (ds.drop 16).take 4
      ++ ds.drop 20 = ds := by
    have hpart : ∀ k n, (ds.drop k).take n ++ ds.drop (k + n) = ds.drop k := fun k n => by
      rw [← List.drop_drop, List.take_append_drop]
    rw [List.append_assoc, hpart 16 4, List.append_assoc, hpart 12 4, List.append_assoc, hpart 8 4,
      List.take_append_drop]
  rw [hjoin] at hgroups
  rw [← hgroups, grouped]
  simp only [List.append_assoc, List.cons_append]

theorem length_grouped (h : ds.length = 32) : (grouped ds).length = 36 := by
  simp [grouped, h]

theorem ofText?_text (id : Id) : ofText? id.text = some id := by
  have hlength := length_hexDigits 32 id.value
  have hvalue := hexValue?_hexDigits 32 id.value
  rw [Nat.mod_eq_of_lt (show id.value < Nat.pow 16 32 from id.value_lt)] at hvalue
  rw [ofText?, text, String.toList_ofList, ofChars?, chars, length_grouped hlength]
  simp only [ungrouped?_grouped hlength, hvalue, Option.bind_eq_bind, Option.bind_some]
  exact ofNat?_value id

end Id

namespace Json

variable {fields : List (String × Json)} {name : String} {v : Json}

theorem field?_of_mem (hnames : (fields.map Prod.fst).Nodup) (h : (name, v) ∈ fields) :
    (obj fields).field? name = some v := by
  rw [field?]
  cases hfind : fields.reverse.find? fun f => f.1 == name with
  | none =>
    have hnone := List.find?_eq_none.mp hfind _ (List.mem_reverse.mpr h)
    exact absurd (beq_self_eq_true name) hnone
  | some f =>
    have hname : f.1 = name := by simpa using List.find?_some hfind
    have hmem := List.mem_reverse.mp (List.mem_of_find?_eq_some hfind)
    rw [List.inj_on_of_nodup_map hnames hmem h hname]
    rfl

theorem whole_ofOption {α : Type} {f : α → Json} (hf : ∀ a, Whole (f a)) (o : Option α) :
    Whole (ofOption f o) := by
  cases o with
  | none => exact .null
  | some a => exact hf a

theorem whole_zip {names : List String} {values : List Json} (h : ∀ v ∈ values, Whole v) :
    ∀ f ∈ names.zip values, Whole f.2 := fun f hf => h f.2 (List.of_mem_zip hf).2

end Json

namespace Audit

open Json

section Fields

variable {v : Json} {name : String}

theorem id?_of_field {id : Id} (h : v.field? name = some (jsonId id)) : id? v name = some id := by
  simp only [id?, h, Option.bind_eq_bind, Option.bind_some, jsonId, Json.text?, Id.ofText?_text]

theorem time?_of_field {t : Instant} (h : v.field? name = some (jsonTime t)) (ht : t.Plain) :
    time? v name = some t := by
  simp only [time?, h, Option.bind_eq_bind, Option.bind_some, jsonTime, Json.text?, ht.ofText?_text]

theorem text?_of_field {s : String} (h : v.field? name = some (.str s)) :
    Audit.text? v name = some s := by
  simp only [Audit.text?, h, Option.bind_eq_bind, Option.bind_some, Json.text?]

theorem int?_of_field {bound n : Int} (h : v.field? name = some (.int n))
    (hn : -bound ≤ n ∧ n < bound) : Audit.int? bound v name = some n := by
  simp only [Audit.int?, h, Option.bind_eq_bind, Option.bind_some, Json.int?, hn, and_self, if_true]

theorem optional?_of_field {α : Type} {f : α → Json} {read : Json → String → Option α}
    {o : Option α} (h : v.field? name = some (.ofOption f o)) (hnull : ∀ a, f a ≠ .null)
    (hread : ∀ a ∈ o, v.field? name = some (f a) → read v name = some a) :
    optional? read v name = some o := by
  cases o with
  | none => simp only [optional?, present?, h, ofOption]
  | some a =>
    have hpresent : v.present? name = some (f a) := by
      rw [present?, h, ofOption]
      split
      · next heq => exact absurd (Option.some.inj heq) (hnull a)
      · rfl
    simp only [optional?, hpresent, hread a rfl h, Option.map_some]

theorem optional?_of_text {o : Option String} (h : v.field? name = some (.ofOption .str o)) :
    optional? Audit.text? v name = some o :=
  optional?_of_field h (fun _ => nofun) fun _ _ => text?_of_field

def tagged (tag : String) (fields : List (String × Json)) : Json :=
  .obj ((Event.tagName, .str tag) :: fields)

theorem field?_tagged (tag : String) {fields : List (String × Json)}
    (hnames : (Event.tagName :: fields.map Prod.fst).Nodup) (i : Nat) {name : String} {v : Json}
    (h : fields[i]? = some (name, v)) : (tagged tag fields).field? name = some v :=
  field?_of_mem hnames (List.mem_cons_of_mem _ (List.mem_of_getElem? h))

end Fields

namespace CounterChanged

/-- The values are of the types of their fields. -/
structure Fits (c : CounterChanged) : Prop where
  year : ∀ y ∈ c.year, -int32Bound ≤ y ∧ y < int32Bound
  time : c.time.Plain

variable {c : CounterChanged}

theorem nodup_names (c : CounterChanged) : (Event.tagName :: c.fields.map Prod.fst).Nodup := by
  change (Event.tagName :: names).Nodup
  decide

theorem ofFields?_fields (h : c.Fits) (tag : String) :
    ofFields? (tagged tag c.fields) = some c := by
  have hfield := field?_tagged tag c.nodup_names
  have hyear : optional? (Audit.int? int32Bound) (tagged tag c.fields) "year" = some c.year :=
    optional?_of_field (hfield 4 rfl) (fun _ => nofun) fun y hy hint =>
      int?_of_field hint (h.year y hy)
  rw [ofFields?, id?_of_field (hfield 0 rfl), id?_of_field (hfield 1 rfl),
    id?_of_field (hfield 2 rfl), text?_of_field (hfield 3 rfl), hyear,
    text?_of_field (hfield 5 rfl), time?_of_field (hfield 6 rfl) h.time]
  rfl

theorem whole_fields (c : CounterChanged) : ∀ f ∈ c.fields, Whole f.2 := by
  refine whole_zip ?_
  simp [jsonId, jsonTime, Whole.str, whole_ofOption Whole.int]

end CounterChanged

namespace NumberAllocated

structure Fits (n : NumberAllocated) : Prop where
  value : -int64Bound ≤ n.value ∧ n.value < int64Bound
  time : n.time.Plain

variable {n : NumberAllocated}

theorem nodup_names (n : NumberAllocated) : (Event.tagName :: n.fields.map Prod.fst).Nodup := by
  change (Event.tagName :: names).Nodup
  decide

theorem ofFields?_fields (h : n.Fits) (tag : String) :
    ofFields? (tagged tag n.fields) = some n := by
  have hfield := field?_tagged tag n.nodup_names
  rw [ofFields?, id?_of_field (hfield 0 rfl), id?_of_field (hfield 1 rfl),
    text?_of_field (hfield 2 rfl), int?_of_field (hfield 3 rfl) h.value,
    text?_of_field (hfield 4 rfl), time?_of_field (hfield 5 rfl) h.time]
  rfl

theorem whole_fields (n : NumberAllocated) : ∀ f ∈ n.fields, Whole f.2 := by
  refine whole_zip ?_
  simp [jsonId, jsonTime, Whole.str, Whole.int]

end NumberAllocated

namespace DocumentChanged

structure Fits (d : DocumentChanged) : Prop where
  version : -int64Bound ≤ d.version ∧ d.version < int64Bound
  time : d.time.Plain

variable {d : DocumentChanged}

theorem nodup_names (d : DocumentChanged) : (Event.tagName :: d.fields.map Prod.fst).Nodup := by
  change (Event.tagName :: names).Nodup
  decide

theorem ofFields?_fields (h : d.Fits) (tag : String) :
    ofFields? (tagged tag d.fields) = some d := by
  have hfield := field?_tagged tag d.nodup_names
  rw [ofFields?, id?_of_field (hfield 0 rfl), id?_of_field (hfield 1 rfl),
    optional?_of_text (hfield 2 rfl), int?_of_field (hfield 3 rfl) h.version,
    text?_of_field (hfield 4 rfl), time?_of_field (hfield 5 rfl) h.time]
  rfl

theorem whole_fields (d : DocumentChanged) : ∀ f ∈ d.fields, Whole f.2 := by
  refine whole_zip ?_
  simp [jsonId, jsonTime, Whole.str, Whole.int, whole_ofOption Whole.str]

end DocumentChanged

namespace StatusChanged

variable {s : StatusChanged}

theorem nodup_names (s : StatusChanged) : (Event.tagName :: s.fields.map Prod.fst).Nodup := by
  change (Event.tagName :: names).Nodup
  decide

theorem ofFields?_fields (h : s.time.Plain) (tag : String) :
    ofFields? (tagged tag s.fields) = some s := by
  have hfield := field?_tagged tag s.nodup_names
  rw [ofFields?, id?_of_field (hfield 0 rfl), id?_of_field (hfield 1 rfl),
    text?_of_field (hfield 2 rfl), text?_of_field (hfield 3 rfl), optional?_of_text (hfield 4 rfl),
    text?_of_field (hfield 5 rfl), optional?_of_text (hfield 6 rfl),
    time?_of_field (hfield 7 rfl) h]
  rfl

theorem whole_fields (s : StatusChanged) : ∀ f ∈ s.fields, Whole f.2 := by
  refine whole_zip ?_
  simp [jsonId, jsonTime, Whole.str, whole_ofOption Whole.str]

end StatusChanged

namespace Event

inductive Kind where
  | counterCreated
  | counterUpdated
  | counterRetired
  | numberAllocated
  | documentCreated
  | numberAssigned
  | statusChanged
deriving DecidableEq

def kind : Event → Kind
  | counterCreated _ => .counterCreated
  | counterUpdated _ => .counterUpdated
  | counterRetired _ => .counterRetired
  | numberAllocated _ => .numberAllocated
  | documentCreated _ => .documentCreated
  | numberAssigned _ => .numberAssigned
  | statusChanged _ => .statusChanged

def Kind.tag : Kind → String
  | counterCreated => "counter_created"
  | counterUpdated => "counter_updated"
  | counterRetired => "counter_retired"
  | numberAllocated => "number_allocated"
  | documentCreated => "document_created"
  | numberAssigned => "number_assigned"
  | statusChanged => "status_changed"

theorem Kind.tag_injective {k l : Kind} (h : k.tag = l.tag) : k = l := by
  revert h
  cases k <;> cases l <;> decide

/-- The values are of the types of their fields, and the time is plain. -/
def Fits : Event → Prop
  | counterCreated c => c.Fits
  | counterUpdated c => c.Fits
  | counterRetired c => c.Fits
  | numberAllocated n => n.Fits
  | documentCreated d => d.Fits
  | numberAssigned d => d.Fits
  | statusChanged s => s.time.Plain

variable {e f : Event}

theorem nodup_names (e : Event) : (tagName :: e.fields.map Prod.fst).Nodup := by
  cases e with
  | counterCreated c => exact c.nodup_names
  | counterUpdated c => exact c.nodup_names
  | counterRetired c => exact c.nodup_names
  | numberAllocated n => exact n.nodup_names
  | documentCreated d => exact d.nodup_names
  | numberAssigned d => exact d.nodup_names
  | statusChanged s => exact s.nodup_names

theorem whole_toJson (e : Event) : Whole e.toJson := by
  refine .obj (List.forall_mem_cons.mpr ⟨.str _, ?_⟩)
  cases e with
  | counterCreated c => exact c.whole_fields
  | counterUpdated c => exact c.whole_fields
  | counterRetired c => exact c.whole_fields
  | numberAllocated n => exact n.whole_fields
  | documentCreated d => exact d.whole_fields
  | numberAssigned d => exact d.whole_fields
  | statusChanged s => exact s.whole_fields

theorem text?_tagName (e : Event) : text? e.toJson tagName = some e.kind.tag := by
  have htag : e.toJson.field? tagName = some (.str e.tag) :=
    field?_of_mem e.nodup_names List.mem_cons_self
  rw [text?_of_field htag]
  cases e <;> rfl

theorem ofFields?_tag (k : Kind) (v : Json) :
    ofFields? k.tag v = match k with
      | .counterCreated => (CounterChanged.ofFields? v).map counterCreated
      | .counterUpdated => (CounterChanged.ofFields? v).map counterUpdated
      | .counterRetired => (CounterChanged.ofFields? v).map counterRetired
      | .numberAllocated => (NumberAllocated.ofFields? v).map numberAllocated
      | .documentCreated => (DocumentChanged.ofFields? v).map documentCreated
      | .numberAssigned => (DocumentChanged.ofFields? v).map numberAssigned
      | .statusChanged => (StatusChanged.ofFields? v).map statusChanged := by
  cases k <;> simp [ofFields?, Kind.tag]

/-- The data of an event is read back under its tag. -/
theorem ofFields?_toJson (h : e.Fits) : ofFields? e.kind.tag e.toJson = some e := by
  rw [ofFields?_tag]
  cases e with
  | counterCreated c => exact congrArg (Option.map counterCreated) (c.ofFields?_fields h _)
  | counterUpdated c => exact congrArg (Option.map counterUpdated) (c.ofFields?_fields h _)
  | counterRetired c => exact congrArg (Option.map counterRetired) (c.ofFields?_fields h _)
  | numberAllocated n => exact congrArg (Option.map numberAllocated) (n.ofFields?_fields h _)
  | documentCreated d => exact congrArg (Option.map documentCreated) (d.ofFields?_fields h _)
  | numberAssigned d => exact congrArg (Option.map numberAssigned) (d.ofFields?_fields h _)
  | statusChanged s => exact congrArg (Option.map statusChanged) (s.ofFields?_fields h _)

theorem ofText?_text (h : e.Fits) : ofText? e.text = some e := by
  rw [ofText?, text, e.whole_toJson.ofText?_text]
  change (Audit.text? e.toJson tagName).bind (fun tag => ofFields? tag e.toJson) = some e
  rw [text?_tagName]
  exact ofFields?_toJson h

/-- The line that is written for an event is read as that event and as no other, and its kind can be
told from its tag alone. -/
theorem written_event_survives (h : e.Fits) :
    (∃ line, Sink.trace.keep [e] = [.str line] ∧ ofText? line = some e) ∧
      (∀ f : Event, f.Fits → f.text = e.text → f = e) ∧
      ∃ v, Json.ofText? e.text = some v ∧ Audit.text? v tagName = some e.kind.tag ∧
        ∀ k : Kind, k.tag = e.kind.tag → k = e.kind := by
  refine ⟨⟨e.text, rfl, ofText?_text h⟩, fun f hf htext => ?_, e.toJson,
    e.whole_toJson.ofText?_text, text?_tagName e, fun k => Kind.tag_injective⟩
  have hread := (ofText?_text hf).symm.trans ((congrArg ofText? htext).trans (ofText?_text h))
  exact Option.some.inj hread

/-- A change for a reason with quotes, a backslash, a line break and the character zero. -/
def awkward : Event :=
  .statusChanged
    { document := .nil
      tenant := .nil
      source := "DRAFT"
      target := "OPEN"
      reason := some "\"as agreed\" \\ \n\x00"
      user := "Zoë"
      clientAddress := none
      time := ⟨1750000000, 120000000, by decide⟩ }

theorem written_event_survives_awkward :
    awkward.Fits ∧ ofText? awkward.text = some awkward := by
  have hfits : awkward.Fits := by
    change (Instant.mk 1750000000 120000000 _).Plain
    decide +kernel
  obtain ⟨⟨line, hline, hread⟩, -⟩ := written_event_survives hfits
  obtain rfl : awkward.text = line := Json.str.inj (List.cons.inj hline).1
  exact ⟨hfits, hread⟩

end Event

end Audit

end Docket
