import Docket.Proofs.Demands
import Docket.Proofs.Origins

/-! # Well-formed counters

Counters are written by requests to create or configure them and by allocations that add the first
counter of a stream. Each has its own checks, and together they leave only rows that read back. The
document type of a counter that is added for a document comes from that document.
-/

namespace Docket

open Store Issuing Simulation

namespace Store

/-- Rows of counters that mean something. -/
structure CounterRow.WellFormed (r : CounterRow) : Prop where
  padding : 1 ≤ r.padding ∧ r.padding ≤ 10
  value : 0 ≤ r.value
  year : ∀ y ∈ r.year, 0 < y ∧ y < int32Bound
  /-- A pattern shows the number. -/
  pattern : ∀ p ∈ r.pattern, ∃ before after,
    p.toList = before ++ Placeholder.number.word ++ after
  documentType : r.documentType.isNil = false
  created : Text.isBlank r.created.user = false
  updated : Text.isBlank r.updated.user = false

theorem CounterRow.WellFormed.exists_counter {r : CounterRow} (h : r.WellFormed) :
    ∃ c : Counter, r = .encode c ∧ c.Storable := by
  refine CounterRow.exists_storable_iff.mpr ⟨h.padding, fun y hy => ?_⟩
  have := h.year y hy
  simp only [int32Bound] at this ⊢
  omega

theorem CounterRow.WellFormed.exists_decode {r : CounterRow} (h : r.WellFormed) :
    ∃ c, r.decode = .ok c := by
  obtain ⟨c, rfl, hc⟩ := h.exists_counter
  exact ⟨c, CounterRow.decode_encode hc⟩

/-- All counters are well formed, and no document has a type that is none. -/
structure Sound (s : Store) : Prop where
  counters : ∀ r ∈ s.counters, r.WellFormed
  documents : ∀ r ∈ s.documents, ∀ id ∈ r.documentType, id.isNil = false

theorem sound_empty : Sound {} :=
  ⟨fun _ h => absurd h List.not_mem_nil, fun _ h => absurd h List.not_mem_nil⟩

end Store

namespace Issuing

variable {settings : CounterSettings} {new : NewCounter} {id : Id}

theorem check_bind_eq_ok_iff {x : Except Violation Unit} {f : Unit → Except Violation Unit} :
    x >>= f = .ok () ↔ x = .ok () ∧ f () = .ok () := by
  cases x with
  | error v => simp [bind, Except.bind]
  | ok => simp [bind, Except.bind]

/-- A pattern that passes its check shows the number. -/
theorem pattern_of_checkSettings (h : checkSettings settings = .ok ()) :
    ∀ p ∈ settings.pattern, ∃ before after,
      p.toList = before ++ Placeholder.number.word ++ after := by
  intro p hp
  rw [← Text.occurs_iff]
  obtain ⟨-, hpattern⟩ := check_bind_eq_ok_iff.mp h
  rw [Option.mem_def.mp hp] at hpattern
  cases hoccurs : Text.occurs Placeholder.number.word p.toList with
  | true => rfl
  | false => simp [checkPattern, hoccurs] at hpattern

theorem start_of_checkNewCounter (h : checkNewCounter new = .ok ()) : 0 ≤ new.start := by
  unfold checkNewCounter at h
  simp only [check_bind_eq_ok_iff] at h
  obtain ⟨-, -, hstart, -⟩ := h
  unfold checkStart at hstart
  split at hstart
  · cases hstart
  · omega

theorem year_of_checkNewCounter (h : checkNewCounter new = .ok ()) :
    ∀ y ∈ new.key.year, 0 < y := by
  intro y hy
  unfold checkNewCounter at h
  simp only [check_bind_eq_ok_iff] at h
  obtain ⟨-, -, -, hyear⟩ := h
  rw [Option.mem_def.mp hy] at hyear
  unfold checkYear at hyear
  dsimp only at hyear
  split at hyear
  · cases hyear
  · omega

theorem isNil_of_checkNewCounter (h : checkNewCounter new = .ok ()) :
    new.key.documentType.isNil = false :=
  checkDocumentType_eq_ok_iff.mp (check_bind_eq_ok_iff.mp h).1

end Issuing

namespace Service

variable {service : Service} {call : Call} {tenant : Id} {new : NewCounter}

/-- Calls with a clock in a year after the year 0. -/
def InYears (call : Call) : Prop := 0 < call.now.year ∧ call.now.year < int32Bound

theorem isBlank_stamp (hservice : service.Valid) (call : Call) :
    Text.isBlank (service.stamp call).user = false := by
  change Text.isBlank (call.caller.actingUser service.systemUser) = false
  unfold Caller.actingUser
  cases call.caller.user with
  | none => exact hservice.systemUser
  | some user =>
    cases hblank : Text.isBlank user with
    | true => simpa [hblank] using hservice.systemUser
    | false => simp [hblank]

theorem isNil_of_checkReferences {new : NewDocument} (h : checkReferences new = .ok ()) :
    ∀ id ∈ new.documentType, id.isNil = false := by
  intro id hid
  unfold checkReferences at h
  cases hnil : id.isNil with
  | true => simp [Option.mem_def.mp hid, hnil] at h
  | false => rfl

theorem wellFormed_newCounter (hservice : service.Valid) (hnew : checkNewCounter new = .ok ())
    (hyear : ∀ y ∈ new.key.year, y < int32Bound) :
    (CounterRow.encode (service.newCounter call tenant new)).WellFormed := by
  have hsettings := settings_of_checkNewCounter hnew
  have hpadding := padding_of_checkSettings hsettings
  exact
    { padding := by
        change 1 ≤ (new.settings.padding : Int) ∧ (new.settings.padding : Int) ≤ 10
        omega
      value := start_of_checkNewCounter hnew
      year := fun y hy => ⟨year_of_checkNewCounter hnew y hy, hyear y hy⟩
      pattern := pattern_of_checkSettings hsettings
      documentType := isNil_of_checkNewCounter hnew
      created := isBlank_stamp hservice call
      updated := isBlank_stamp hservice call }

theorem wellFormed_firstCounter (hservice : service.Valid) (hcall : InYears call) {stream : Stream}
    (hstream : stream.documentType.isNil = false) :
    (CounterRow.encode (service.allocation call stream).firstCounter).WellFormed := by
  have hpadding := hservice.padding
  exact
    { padding := by
        change 1 ≤ (service.defaults.padding : Int) ∧ (service.defaults.padding : Int) ≤ 10
        omega
      value := Int.zero_le_ofNat 1
      year := fun y hy => Option.some.inj hy ▸ hcall
      pattern := nofun
      documentType := hstream
      created := isBlank_stamp hservice call
      updated := isBlank_stamp hservice call }

end Service

namespace Store

variable {s t : Store} {step : Step} {reply : step.Reply} {a : Allocation} {c : Counter}
  {r : CounterRow} {stamp : Stamp}

theorem CounterRow.WellFormed.configured (h : r.WellFormed)
    (hsettings : checkSettings c.settings = .ok ())
    (hupdated : Text.isBlank c.updated.user = false) : (r.configured c).WellFormed := by
  have hpadding := padding_of_checkSettings hsettings
  exact
    { h with
      padding := by
        change 1 ≤ (c.settings.padding : Int) ∧ (c.settings.padding : Int) ≤ 10
        omega
      pattern := pattern_of_checkSettings hsettings
      updated := hupdated }

theorem CounterRow.WellFormed.retire (h : r.WellFormed) (hstamp : Text.isBlank stamp.user = false) :
    (r.retire stamp).WellFormed :=
  { h with updated := hstamp }

theorem CounterRow.WellFormed.next (h : (CounterRow.encode c).WellFormed)
    (hfirst : (CounterRow.encode a.firstCounter).WellFormed) :
    (CounterRow.encode (a.next c)).WellFormed := by
  by_cases hrolls : a.Rolls c
  · rw [Allocation.next_of_rolls hrolls]
    exact
      { h with
        value := Int.zero_le_ofNat 1
        year := hfirst.year
        updated := hfirst.updated }
  · rw [Allocation.next_of_not_rolls hrolls]
    have hvalue : 0 ≤ c.value := h.value
    exact
      { h with
        value := Int.add_nonneg hvalue (Int.zero_le_ofNat 1)
        updated := hfirst.updated }

end Store

namespace Step

/-- Requests that write only what is well formed. -/
def Careful : Step → Prop
  | insertCounter c => (CounterRow.encode c).WellFormed
  | updateSettings c => checkSettings c.settings = .ok () ∧ Text.isBlank c.updated.user = false
  | retireCounter _ _ stamp => Text.isBlank stamp.user = false
  | allocate a => (CounterRow.encode a.firstCounter).WellFormed
  | assignNumber _ _ a => (CounterRow.encode a.firstCounter).WellFormed
  | insertDocument d => ∀ id ∈ d.documentType, id.isNil = false
  | _ => True

theorem Careful.firstCounter {step : Step} (h : step.Careful) {a : Allocation}
    (ha : Scene.allocation? step = some a) : (CounterRow.encode a.firstCounter).WellFormed := by
  cases step with
  | allocate | assignNumber =>
    obtain rfl := Option.some.inj ha
    exact h
  | _ => cases ha

end Step

namespace Store

variable {s t : Store} {step : Step} {reply : step.Reply}

theorem Replies.sound (h : s.Replies step reply t) (hkeyed : s.Keyed) (hs : s.Sound)
    (hstep : step.Careful) : t.Sound := by
  constructor
  · intro q hq
    cases h.origin hkeyed hq with
    | kept stored => exact hs.counters q stored
    | inserted request row =>
      subst request row
      exact hstep
    | configured request stored row =>
      subst request row
      exact (hs.counters _ stored).configured hstep.1 hstep.2
    | retired request stored row =>
      subst request row
      exact (hs.counters _ stored).retire hstep
    | first request row =>
      subst row
      exact hstep.firstCounter request
    | next request stored stream row =>
      subst row
      exact (hs.counters _ stored).next (hstep.firstCounter request)
  · intro q hq
    cases h.document_origin hkeyed hq with
    | kept stored id tenant documentType =>
      rw [documentType]
      exact hs.documents _ stored
    | inserted request row =>
      subst request row
      exact hstep

end Store

namespace Job

variable {service : Service} {job : Job} {seen : Store → Prop} {step : Step}

/-- What the request of a job says itself about years has 32 bits, as its clock has. -/
def InRange (job : Job) : Prop := job.request.YearFits ∧ Service.InYears job.call

/-- Calls of a valid service write only what is well formed, given that documents which they have
loaded have types. -/
theorem Demands.careful (h : job.Demands service seen step) (hservice : service.Valid)
    (hjob : job.InRange) (hseen : ∀ s, seen s → s.Keyed ∧ s.Sound) : step.Careful := by
  obtain ⟨call, request⟩ := job
  obtain ⟨tenant, -, h⟩ := h
  obtain ⟨hyear, hcall⟩ := hjob
  cases step with
  | insertCounter c =>
    cases request with
    | createCounter new =>
      obtain ⟨hnew, rfl⟩ := h
      exact Service.wellFormed_newCounter hservice hnew fun y hy => (hyear y hy).2
    | _ => exact h.elim
  | updateSettings c =>
    cases request with
    | updateCounter id settings =>
      obtain ⟨hsettings, s, b, -, -, rfl⟩ := h
      exact ⟨hsettings, Service.isBlank_stamp hservice call⟩
    | _ => exact h.elim
  | retireCounter owner id stamp =>
    cases request with
    | deleteCounter counter =>
      obtain ⟨-, -, rfl⟩ := h
      exact Service.isBlank_stamp hservice call
    | _ => exact h.elim
  | allocate a =>
    cases request with
    | generateNumber documentType series =>
      obtain ⟨htype, rfl⟩ := h
      exact Service.wellFormed_firstCounter hservice hcall htype
    | _ => exact h.elim
  | assignNumber d expected a =>
    cases request with
    | assignNumber document series =>
      obtain ⟨s, b, documentType, hs, hb, -, htype, -, -, rfl⟩ := h
      obtain ⟨hkeyed, hsound⟩ := hseen s hs
      obtain ⟨-, -, hheld⟩ := hkeyed.findDocument_eq_some_iff.mp hb
      exact Service.wellFormed_firstCounter hservice hcall (hsound.documents _ hheld.row _ htype)
    | _ => exact h.elim
  | insertDocument d =>
    cases request with
    | createDocument new =>
      obtain ⟨hreferences, rfl⟩ := h
      exact Service.isNil_of_checkReferences hreferences
    | _ => exact h.elim
  | _ => exact trivial

end Job

end Docket
