import Docket.Proofs.Documents
import Docket.Proofs.Motion

/-! # Stores without their configuration

What a counter is configured with, apart from whether it starts again, shows in the text of a number
only; and of the number of a document it only matters whether there is one. Stores that differ in
nothing else answer requests alike, and do not differ in anything else afterwards.
-/

namespace Docket

open Store Issuing Simulation

/-- Results that fail in the same way, or succeed with values in a relation. -/
inductive Paired {ε α β : Type} (R : α → β → Prop) : Except ε α → Except ε β → Prop
  | ok {a : α} {b : β} (related : R a b) : Paired R (.ok a) (.ok b)
  | error (e : ε) : Paired R (.error e) (.error e)

theorem paired_of_map_eq {ε α β γ : Type} {f : α → γ} {g : β → γ} {x : Except ε α}
    {y : Except ε β} (h : x.map f = y.map g) : Paired (fun a b => f a = g b) x y := by
  cases x with
  | error e =>
    cases y with
    | error e' =>
      obtain rfl : e = e' := Except.error.inj h
      exact .error e
    | ok b => cases h
  | ok a =>
    cases y with
    | error e => cases h
    | ok b => exact .ok (Except.ok.inj h)

theorem Paired.bind {ε α β γ δ : Type} {R : α → β → Prop} {S : γ → δ → Prop} {x : Except ε α}
    {y : Except ε β} {f : α → Except ε γ} {g : β → Except ε δ} (h : Paired R x y)
    (hf : ∀ a b, R a b → Paired S (f a) (g b)) : Paired S (x >>= f) (y >>= g) := by
  cases h with
  | ok related => exact hf _ _ related
  | error e => exact .error e

/-- A configuration of which it stays whether the counter starts again, and of the padding whether
that can be read. -/
def CounterSettings.bare (settings : CounterSettings) : CounterSettings :=
  { padding := if 1 ≤ settings.padding ∧ settings.padding ≤ 10 then 1 else settings.padding
    resets := settings.resets }

def Counter.bare (c : Counter) : Counter :=
  { c with
    settings := c.settings.bare
    updated := default }

def Number.bare (n : Number) : Number := { n with formatted := "" }

/-- A document of whose number it stays whether there is one. -/
def Document.bare (d : Document) : Document := { d with number := d.number.map fun _ => "" }

theorem CounterSettings.bare_bare (settings : CounterSettings) :
    settings.bare.bare = settings.bare := by
  have hpadding : settings.bare.bare.padding = settings.bare.padding := by
    by_cases h : 1 ≤ settings.padding ∧ settings.padding ≤ 10
    · have hbare : settings.bare.padding = 1 := if_pos h
      rw [hbare]
      exact if_pos (by omega)
    · exact if_neg (by rwa [show settings.bare.padding = settings.padding from if_neg h])
  exact congrArg (fun n => { settings.bare with padding := n }) hpadding

namespace Store

def CounterRow.bare (r : CounterRow) : CounterRow :=
  { r with
    lead := none
    padding := if 1 ≤ r.padding ∧ r.padding ≤ 10 then 1 else r.padding
    pattern := none
    notes := none
    updated := default }

def DocumentRow.bare (r : DocumentRow) : DocumentRow :=
  { r with number := r.number.map fun _ => "" }

def bare (s : Store) : Store :=
  { s with
    counters := s.counters.map CounterRow.bare
    documents := s.documents.map DocumentRow.bare }

variable {s t : Store} {tenant id : Id} {r q : CounterRow} {c d : Counter}

namespace CounterRow

theorem bare_encode (c : Counter) : (encode c).bare = encode c.bare := by
  have hpadding : (encode c).bare.padding = (encode c.bare).padding := by
    by_cases h : 1 ≤ c.settings.padding ∧ c.settings.padding ≤ 10
    · have hrow : 1 ≤ (encode c).padding ∧ (encode c).padding ≤ 10 := by
        simp only [encode]
        omega
      exact (if_pos hrow).trans (congrArg Int.ofNat (if_pos h)).symm
    · have hrow : ¬ (1 ≤ (encode c).padding ∧ (encode c).padding ≤ 10) := by
        simp only [encode]
        omega
      exact (if_neg hrow).trans (congrArg Int.ofNat (if_neg h)).symm
  exact congrArg (fun n => { (encode c).bare with padding := n }) hpadding

theorem checkColumns_bare (r : CounterRow) : r.bare.checkColumns = r.checkColumns := by
  by_cases h : 1 ≤ r.padding ∧ r.padding ≤ 10
  · have hfits : r.paddingFits = true := by
      rw [paddingFits, decide_eq_true_eq, int16Bound]
      omega
    have hbare : r.bare.paddingFits = true := by
      rw [paddingFits, bare, if_pos h]
      rfl
    rw [checkColumns, checkColumns, hfits, hbare]
    rfl
  · have hbare : r.bare.padding = r.padding := if_neg h
    simp only [checkColumns, paddingFits, hbare]
    rfl

theorem bare_bare (r : CounterRow) : r.bare.bare = r.bare := by
  have hpadding : r.bare.bare.padding = r.bare.padding := by
    by_cases h : 1 ≤ r.padding ∧ r.padding ≤ 10
    · have hbare : r.bare.padding = 1 := if_pos h
      rw [hbare]
      exact if_pos (by omega)
    · exact if_neg (by rwa [show r.bare.padding = r.padding from if_neg h])
  exact congrArg (fun n => { r.bare with padding := n }) hpadding

/-- Whether a row can be read does not depend on its configuration, as long as its padding can. -/
theorem decode_bare (r : CounterRow) : r.bare.decode = r.decode.map Counter.bare := by
  rw [decode, checkColumns_bare, decode]
  cases r.checkColumns with
  | error f => rfl
  | ok u =>
    by_cases h : 1 ≤ r.padding ∧ r.padding ≤ 10
    · obtain ⟨p, hp⟩ := Int.eq_ofNat_of_zero_le (Int.le_trans (by decide) h.1)
      have hread : readPadding r.id r.padding = .ok p := readPadding_eq_ok_iff.mpr ⟨hp, by omega⟩
      have hbare : readPadding r.bare.id r.bare.padding = .ok 1 :=
        readPadding_eq_ok_iff.mpr ⟨if_pos h, by decide⟩
      have hone : (if 1 ≤ p ∧ p ≤ 10 then 1 else p) = 1 := if_pos (by omega)
      rw [hread, hbare]
      simp only [bind, Except.bind, pure, Except.pure, Except.map, Counter.bare,
        CounterSettings.bare, hone]
      rfl
    · have hbare : r.bare.padding = r.padding := if_neg h
      cases hread : readPadding r.id r.padding with
      | error f =>
        have hread' : readPadding r.bare.id r.padding = .error f := hread
        simp only [hbare, hread', bind, Except.bind, Except.map]
      | ok p =>
        obtain ⟨hp, hp'⟩ := readPadding_eq_ok_iff.mp hread
        omega

theorem map_decode_eq (h : r.bare = q.bare) :
    r.decode.map Counter.bare = q.decode.map Counter.bare := by
  rw [← decode_bare, h, decode_bare]

theorem mapM_decode_bare (rows : List CounterRow) :
    (rows.map bare).mapM decode = (rows.mapM decode).map (List.map Counter.bare) := by
  induction rows with
  | nil => rfl
  | cons r rows ih =>
    rw [List.map_cons, List.mapM_cons, List.mapM_cons, decode_bare, ih]
    cases r.decode with
    | error f => rfl
    | ok c => cases rows.mapM decode <;> rfl

theorem decodeAll_bare (rows : List CounterRow) :
    decodeAll (rows.map bare) = (decodeAll rows).map (List.map Counter.bare) := by
  have hcolumns : (rows.map bare).forM checkColumns = rows.forM checkColumns := by
    induction rows with
    | nil => rfl
    | cons r rows ih =>
      rw [List.map_cons, List.forM, List.forM, checkColumns_bare]
      cases r.checkColumns with
      | error f => rfl
      | ok u => exact ih
  rw [decodeAll, decodeAll, hcolumns, mapM_decode_bare]
  cases rows.forM checkColumns <;> rfl

end CounterRow

theorem DocumentRow.bare_bare (r : DocumentRow) : r.bare.bare = r.bare := by
  simp only [DocumentRow.bare, Option.map_map, Function.comp_def]

theorem bare_bare (s : Store) : s.bare.bare = s.bare := by
  simp only [bare, List.map_map, Function.comp_def, CounterRow.bare_bare, DocumentRow.bare_bare]

/-! ## Reading -/

theorem filter_bare {p : CounterRow → Bool} (hp : ∀ r : CounterRow, p r.bare = p r)
    (rows : List CounterRow) :
    (rows.map CounterRow.bare).filter p = (rows.filter p).map CounterRow.bare := by
  rw [List.filter_map]
  exact congrArg _ (List.filter_congr fun r _ => hp r)

theorem find?_bare {p : CounterRow → Bool} (hp : ∀ r : CounterRow, p r.bare = p r)
    (rows : List CounterRow) :
    (rows.map CounterRow.bare).find? p = (rows.find? p).map CounterRow.bare := by
  rw [List.find?_map]
  exact congrArg _ (congrArg (rows.find? ·) (funext hp))

theorem any_bare {p : CounterRow → Bool} (hp : ∀ r : CounterRow, p r.bare = p r)
    (rows : List CounterRow) : (rows.map CounterRow.bare).any p = rows.any p := by
  rw [List.any_map]
  exact congrArg (rows.any ·) (funext hp)

theorem liveCounters_bare :
    s.bare.liveCounters tenant = (s.liveCounters tenant).map CounterRow.bare :=
  filter_bare (fun _ => rfl) _

theorem streamRows_bare (stream : Stream) :
    s.bare.streamRows stream = (s.streamRows stream).map CounterRow.bare := by
  rw [streamRows_eq, streamRows_eq, bare, filter_bare fun _ => rfl]
  exact (List.map_insertionSort _ _ CounterRow.bare _ fun _ _ _ _ => Iff.rfl).symm

theorem map_lift_eq {α β : Type} {x y : Except DecodeFailure α} {f : α → β}
    (h : x.map f = y.map f) : (lift x).map f = (lift y).map f := by
  cases paired_of_map_eq h with
  | error e => rfl
  | ok related => exact congrArg Except.ok related

theorem answer_bare {p : CounterRow → Bool} (hp : ∀ r : CounterRow, p r.bare = p r)
    (rows : List CounterRow) :
    (match (rows.map CounterRow.bare).find? p with
      | none => Except.ok none
      | some r => lift (r.decode.map some))
      = (match rows.find? p with
        | none => Except.ok none
        | some r => lift (r.decode.map some)).map (Option.map Counter.bare) := by
  rw [find?_bare hp]
  cases rows.find? p with
  | none => rfl
  | some r =>
    simp only [Option.map_some, CounterRow.decode_bare]
    cases r.decode <;> rfl

theorem findCounter_bare :
    s.bare.findCounter tenant id = (s.findCounter tenant id).map (Option.map Counter.bare) := by
  rw [findCounter, liveCounters_bare]
  exact answer_bare (fun _ => rfl) _

theorem findCounterByKey_bare {key : CounterKey} :
    s.bare.findCounterByKey tenant key
      = (s.findCounterByKey tenant key).map (Option.map Counter.bare) := by
  rw [findCounterByKey, liveCounters_bare]
  exact answer_bare (fun _ => rfl) _

theorem listCounters_bare :
    s.bare.listCounters tenant = (s.listCounters tenant).map (List.map Counter.bare) := by
  have hsort : ((s.liveCounters tenant).map CounterRow.bare).mergeSort listedBefore
      = ((s.liveCounters tenant).mergeSort listedBefore).map CounterRow.bare :=
    (List.map_mergeSort (f := CounterRow.bare) fun _ _ _ _ => rfl).symm
  rw [listCounters, listCounters, liveCounters_bare, hsort, CounterRow.decodeAll_bare]
  cases CounterRow.decodeAll ((s.liveCounters tenant).mergeSort listedBefore) <;> rfl

theorem findRow_bare : s.bare.findRow tenant id = (s.findRow tenant id).map DocumentRow.bare := by
  rw [findRow, bare, List.find?_map]
  rfl

theorem findDocument_bare :
    s.bare.findDocument tenant id = (s.findDocument tenant id).map (Option.map Document.bare) := by
  rw [findDocument, findDocument, findRow_bare]
  cases s.findRow tenant id with
  | none => rfl
  | some r =>
    have hlines : s.bare.linesOf id = s.linesOf id := rfl
    simp only [Option.map_some, hlines]
    cases (s.linesOf id).mapM LineRow.decode with
    | error f => rfl
    | ok lines =>
      simp only [bind, Except.bind, DocumentRow.decode, DocumentRow.bare]
      cases Status.ofText? r.status <;> rfl

theorem findStatus_bare : s.bare.findStatus tenant id = s.findStatus tenant id := by
  rw [findStatus, findStatus, findRow_bare]
  cases s.findRow tenant id <;> rfl

theorem map_eq_map_of_map_eq {α β γ : Type} {l m : List α} {e : α → β} (h : l.map e = m.map e)
    {f g : α → γ} (hf : ∀ a b, e a = e b → f a = g b) : l.map f = m.map g := by
  induction l generalizing m with
  | nil =>
    obtain rfl := List.map_eq_nil_iff.mp h.symm
    rfl
  | cons a l ih =>
    cases m with
    | nil => cases h
    | cons b m =>
      obtain ⟨hhead, htail⟩ := List.cons.inj h
      rw [List.map_cons, List.map_cons, hf a b hhead, ih htail]

/-! ## Writing -/

section Writes

variable {a : Allocation} {e : Document} {expected : Int}

theorem addCounter_bare (s : Store) (r : CounterRow) :
    (s.bare.addCounter r).map bare = (s.addCounter r).map bare := by
  have hkeys : s.bare.counters.any (fun q => decide (q.isLive ∧ q.liveKey = r.liveKey))
      = s.counters.any fun q => decide (q.isLive ∧ q.liveKey = r.liveKey) :=
    any_bare (fun _ => rfl) _
  have hids : s.bare.counters.any (fun q => decide (q.id = r.id))
      = s.counters.any fun q => decide (q.id = r.id) :=
    any_bare (fun _ => rfl) _
  simp only [addCounter, hkeys, hids]
  split_ifs
  · rfl
  · rfl
  · simp [Except.map, bare, CounterRow.bare_bare, DocumentRow.bare_bare]

variable (h : s.bare = t.bare)

include h

theorem counters_of_bare : s.counters.map CounterRow.bare = t.counters.map CounterRow.bare :=
  congrArg (fun u => u.counters) h

theorem documents_of_bare : s.documents.map DocumentRow.bare = t.documents.map DocumentRow.bare :=
  congrArg (fun u => u.documents) h

theorem bare_eq_of {u v : Store} (hcounters : u.counters.map CounterRow.bare = v.counters.map .bare)
    (hdocuments : u.documents.map DocumentRow.bare = v.documents.map .bare)
    (hu : u.lines = s.lines ∧ u.changes = s.changes)
    (hv : v.lines = t.lines ∧ v.changes = t.changes) :
    u.bare = v.bare := by
  have hlines : s.lines = t.lines := congrArg (fun u => u.lines) h
  have hchanges : s.changes = t.changes := congrArg (fun u => u.changes) h
  simp only [bare, hcounters, hdocuments, hu.1, hu.2, hv.1, hv.2, hlines, hchanges]

theorem map_addCounter_eq (r : CounterRow) :
    (s.addCounter r).map bare = (t.addCounter r).map bare := by
  rw [← addCounter_bare, h, addCounter_bare]

theorem map_counters_bare {f g : CounterRow → CounterRow}
    (hf : ∀ r q, r.bare = q.bare → (f r).bare = (g q).bare) :
    bare { s with counters := s.counters.map f }
      = bare { t with counters := t.counters.map g } := by
  refine bare_eq_of h ?_ (documents_of_bare h :) ⟨rfl, rfl⟩ ⟨rfl, rfl⟩
  simp only [List.map_map]
  exact map_eq_map_of_map_eq (counters_of_bare h) hf

theorem changeCounter_bare {f g : CounterRow → CounterRow}
    (hf : ∀ r q, r.bare = q.bare → (f r).bare = (g q).bare) :
    (s.changeCounter id f).bare = (t.changeCounter id g).bare := by
  refine map_counters_bare h fun r q hrq => ?_
  have hid : r.id = q.id := congrArg (fun p => p.id) hrq
  simp only [hid]
  split
  · exact hf r q hrq
  · exact hrq

theorem insertCounter_bare (c : Counter) :
    (s.insertCounter c).1 = (t.insertCounter c).1 ∧
      (s.insertCounter c).2.bare = (t.insertCounter c).2.bare := by
  have hadd := paired_of_map_eq (map_addCounter_eq h (.encode c))
  unfold insertCounter
  generalize s.addCounter (.encode c) = x at hadd
  generalize t.addCounter (.encode c) = y at hadd
  cases hadd with
  | error f => exact ⟨rfl, h⟩
  | ok related => exact ⟨rfl, related⟩

theorem map_find?_bare (id : Id) :
    (s.counters.find? fun r => r.id = id).map CounterRow.bare
      = (t.counters.find? fun r => r.id = id).map CounterRow.bare := by
  rw [← find?_bare (fun _ => rfl), counters_of_bare h, find?_bare fun _ => rfl]

theorem updateSettings_bare (hid : c.id = d.id) (hsettings : c.settings = d.settings) :
    (s.updateSettings c).1.map Counter.bare = (t.updateSettings d).1.map Counter.bare ∧
      (s.updateSettings c).2.bare = (t.updateSettings d).2.bare := by
  have hconfigured : ∀ r q : CounterRow, r.bare = q.bare →
      (r.configured c).bare = (q.configured d).bare := by
    intro r q hrq
    have := congrArg (fun p : CounterRow => p.configured c) hrq
    simp only [CounterRow.bare, CounterRow.configured, CounterRow.mk.injEq, hsettings] at this ⊢
    tauto
  have hfind := map_find?_bare h d.id
  unfold updateSettings
  rw [hid]
  cases hs : s.counters.find? fun r => r.id = d.id with
  | none =>
    rw [hs] at hfind
    rw [Option.map_eq_none_iff.mp hfind.symm]
    exact ⟨rfl, h⟩
  | some r =>
    rw [hs] at hfind
    obtain ⟨q, ht, hrq⟩ := Option.map_eq_some_iff.mp hfind.symm
    rw [ht]
    refine ⟨?_, changeCounter_bare h hconfigured⟩
    exact map_lift_eq (CounterRow.map_decode_eq (hconfigured r q hrq.symm))

theorem retireCounter_bare (tenant id : Id) (stamp : Stamp) :
    (s.retireCounter tenant id stamp).1 = (t.retireCounter tenant id stamp).1 ∧
      (s.retireCounter tenant id stamp).2.bare = (t.retireCounter tenant id stamp).2.bare := by
  have hany : (s.liveCounters tenant).any (fun r => decide (r.id = id))
      = (t.liveCounters tenant).any fun r => decide (r.id = id) := by
    rw [← any_bare (fun _ => rfl), ← liveCounters_bare, h, liveCounters_bare, any_bare fun _ => rfl]
  unfold retireCounter
  rw [hany]
  split
  · refine ⟨rfl, map_counters_bare h fun r q hrq => ?_⟩
    have hcond : (r.id = id ∧ r.tenant = tenant ∧ r.isLive = true)
        = (q.id = id ∧ q.tenant = tenant ∧ q.isLive = true) :=
      show (r.bare.id = id ∧ r.bare.tenant = tenant ∧ r.bare.isLive = true) = _ by rw [hrq]; rfl
    simp only [hcond]
    split
    · have := congrArg (fun p : CounterRow => p.retire stamp) hrq
      simp only [CounterRow.bare, CounterRow.retire, CounterRow.mk.injEq] at this ⊢
      tauto
    · exact hrq
  · exact ⟨rfl, h⟩

omit h in
theorem rolls_bare : a.Rolls c.bare ↔ a.Rolls c := Iff.rfl

omit h in
theorem next_bare (a : Allocation) (c : Counter) : (a.next c.bare).bare = (a.next c).bare := by
  by_cases hrolls : a.Rolls c
  · rw [Allocation.next_of_rolls hrolls, Allocation.next_of_rolls (rolls_bare.mpr hrolls)]
    simp only [Counter.bare, CounterSettings.bare_bare]
  · rw [Allocation.next_of_not_rolls hrolls,
      Allocation.next_of_not_rolls (mt rolls_bare.mp hrolls)]
    simp only [Counter.bare, CounterSettings.bare_bare]

omit h in
theorem Keyed.bare (hs : s.Keyed) : s.bare.Keyed := by
  refine hs.of_ids ?_ ?_ <;> simp only [Store.bare, List.map_map, Function.comp_def] <;> rfl

omit h in
theorem Keyed.advance_bare (hs : s.Keyed) (a : Allocation) :
    (s.bare.advance a).map (Prod.map Counter.bare Store.bare)
      = (s.advance a).map (Prod.map Counter.bare Store.bare) := by
  have hread := CounterRow.decodeAll_bare (s.streamRows a.stream)
  rw [← streamRows_bare] at hread
  cases hrows : CounterRow.decodeAll (s.streamRows a.stream) with
  | error f =>
    rw [hrows] at hread
    simp only [advance, hrows, hread, lift, bind, Except.bind, Except.map]
  | ok counters =>
    rw [hrows] at hread
    have hmap : select? (counters.map Counter.bare) a.year
        = (select? counters a.year).map Counter.bare :=
      select?_map (fun _ => rfl) fun _ => rfl
    cases hselect : select? counters a.year with
    | none =>
      rw [hselect] at hmap
      rw [advance_of_none hrows hselect, advance_of_none hread hmap]
      have hadd := paired_of_map_eq (addCounter_bare s (.encode a.firstCounter))
      generalize s.bare.addCounter (.encode a.firstCounter) = x at hadd
      generalize s.addCounter (.encode a.firstCounter) = y at hadd
      cases hadd with
      | error f => rfl
      | ok related =>
        cases (CounterRow.encode a.firstCounter).decode with
        | error f => rfl
        | ok c => exact congrArg (fun u => Except.ok (c.bare, u)) related
    | some c =>
      rw [hselect] at hmap
      rw [hs.advance_of_some hrows hselect, hs.bare.advance_of_some hread hmap]
      have hnext := next_bare a c
      have hvalue : (a.next c.bare).value = (a.next c).value := congrArg (fun d => d.value) hnext
      have hkey : (CounterRow.encode (a.next c.bare)).liveKey
          = (CounterRow.encode (a.next c)).liveKey :=
        show (CounterRow.encode (a.next c.bare).bare).liveKey = _ by rw [hnext]; rfl
      have htaken : s.bare.isTaken (CounterRow.encode (a.next c)).liveKey c.id
          = s.isTaken (CounterRow.encode (a.next c)).liveKey c.id :=
        any_bare (fun _ => rfl) _
      have hid : c.bare.id = c.id := rfl
      have hrow : (CounterRow.encode (a.next c.bare)).bare
          = (CounterRow.encode (a.next c)).bare := by
        rw [CounterRow.bare_encode, CounterRow.bare_encode, hnext]
      have hstore : (s.bare.changeCounter c.id fun _ => .encode (a.next c.bare)).bare
          = (s.changeCounter c.id fun _ => .encode (a.next c)).bare :=
        changeCounter_bare (bare_bare s) fun _ _ _ => hrow
      have hpaired := paired_of_map_eq (map_lift_eq (CounterRow.map_decode_eq hrow))
      rw [hvalue, hkey, hid, htaken]
      split_ifs
      · rfl
      · generalize lift (CounterRow.encode (a.next c.bare)).decode = x at hpaired ⊢
        generalize lift (CounterRow.encode (a.next c)).decode = y at hpaired ⊢
        cases hpaired with
        | error f => rfl
        | ok related => exact congrArg Except.ok (congrArg₂ Prod.mk related hstore)
      · rfl

theorem Keyed.paired_advance (hs : s.Keyed) (ht : t.Keyed) (a : Allocation) :
    Paired (fun x y => x.1.bare = y.1.bare ∧ x.2.bare = y.2.bare) (s.advance a) (t.advance a) := by
  have hmap : (s.advance a).map (Prod.map Counter.bare Store.bare)
      = (t.advance a).map (Prod.map Counter.bare Store.bare) := by
    rw [← hs.advance_bare, h, ht.advance_bare]
  have hpaired := paired_of_map_eq hmap
  generalize s.advance a = x at hpaired ⊢
  generalize t.advance a = y at hpaired ⊢
  cases hpaired with
  | error f => exact .error f
  | ok related => exact .ok (Prod.ext_iff.mp related)

theorem any_documents_bare {p : DocumentRow → Bool} (hp : ∀ r : DocumentRow, p r.bare = p r) :
    s.documents.any p = t.documents.any p := by
  have hmap : s.documents.map p = t.documents.map p :=
    map_eq_map_of_map_eq (documents_of_bare h) fun r q hrq => by rw [← hp r, hrq, hp q]
  simpa only [List.any_map, Function.id_comp] using congrArg (fun l => l.any id) hmap

theorem paired_changeDocument {d e : Document} (hde : d.bare = e.bare)
    {f g : DocumentRow → DocumentRow} (hf : ∀ r q, r.bare = q.bare → (f r).bare = (g q).bare) :
    Paired (fun u v => u.bare = v.bare) (s.changeDocument d expected f)
      (t.changeDocument e expected g) := by
  have hid : d.id = e.id := congrArg (fun x => x.id) hde
  have htenant : d.tenant = e.tenant := congrArg (fun x => x.tenant) hde
  let matched (r : DocumentRow) : Bool :=
    decide (r.id = e.id ∧ r.tenant = e.tenant ∧ r.version = expected)
  have hmatched : ∀ r q : DocumentRow, r.bare = q.bare → matched r = matched q := fun r q hrq =>
    show matched r.bare = matched q.bare by rw [hrq]
  have hany : s.documents.any matched = t.documents.any matched :=
    any_documents_bare h fun _ => rfl
  have hrows : (s.documents.map fun r => if matched r then f r else r).map DocumentRow.bare
      = (t.documents.map fun r => if matched r then g r else r).map DocumentRow.bare := by
    rw [List.map_map, List.map_map]
    refine map_eq_map_of_map_eq (documents_of_bare h) fun r q hrq => ?_
    simp only [Function.comp_apply, hmatched r q hrq]
    split
    · exact hf r q hrq
    · exact hrq
  unfold changeDocument
  rw [hid, htenant]
  change Paired _ (if s.documents.any matched then _ else _)
    (if t.documents.any matched then _ else _)
  rw [hany]
  split
  · exact .ok (bare_eq_of h (counters_of_bare h :) hrows ⟨rfl, rfl⟩ ⟨rfl, rfl⟩)
  · exact .error _

theorem Keyed.paired_assignNumber (hs : s.Keyed) (ht : t.Keyed) {d e : Document}
    (hde : d.bare = e.bare) (a : Allocation) :
    Paired (fun x y => (x.1.1.bare = y.1.1.bare ∧ x.1.2.bare = y.1.2.bare) ∧ x.2.bare = y.2.bare)
      (s.assignNumber d expected a) (t.assignNumber e expected a) := by
  have hversion : d.version = e.version := congrArg (fun x => x.version) hde
  have hupdated : d.updated = e.updated := congrArg (fun x => x.updated) hde
  refine (hs.paired_advance h ht a).bind fun ⟨c, u⟩ ⟨b, v⟩ ⟨hc, hu⟩ => ?_
  have hnumber : c.number.bare = b.number.bare := by
    have : c.bare.number.bare = b.bare.number.bare := by rw [hc]
    exact this
  refine (paired_changeDocument hu hde fun r q hrq => ?_).bind fun u v hu => .ok ⟨⟨?_, hnumber⟩, hu⟩
  · change { r.bare with number := some "", version := d.version, updated := d.updated } = _
    rw [hrq, hversion, hupdated]
    rfl
  · change { d.bare with number := some "" } = _
    rw [hde]
    rfl

theorem paired_applyChange {d e : Document} (hde : d.bare = e.bare) (change : StatusChange) :
    Paired (fun x y => x.1.bare = y.1.bare ∧ x.2.bare = y.2.bare)
      (s.applyChange d expected change) (t.applyChange e expected change) := by
  have htenant : d.tenant = e.tenant := congrArg (fun x => x.tenant) hde
  have hstatus : d.status = e.status := congrArg (fun x => x.status) hde
  have hclosedAt : d.closedAt = e.closedAt := congrArg (fun x => x.closedAt) hde
  have hversion : d.version = e.version := congrArg (fun x => x.version) hde
  have hupdated : d.updated = e.updated := congrArg (fun x => x.updated) hde
  refine (paired_changeDocument h hde fun r q hrq => ?_).bind fun u v hu => ?_
  · change { r.bare with
      status := d.status.text, closedAt := d.closedAt, version := d.version,
      updated := d.updated } = _
    rw [hrq, hstatus, hclosedAt, hversion, hupdated]
    rfl
  · have hany : u.documents.any (fun r => decide (r.id = change.document))
        = v.documents.any fun r => decide (r.id = change.document) :=
      any_documents_bare hu fun _ => rfl
    rw [hany, htenant]
    split
    · exact .ok ⟨hde, congrArg (fun w : Store =>
        { w with changes := w.changes ++ [ChangeRow.encode e.tenant change] }) hu⟩
    · exact .error _

theorem paired_insertDocument (d : Document) :
    Paired (fun x y => x.1 = y.1 ∧ x.2.bare = y.2.bare) (s.insertDocument d)
      (t.insertDocument d) := by
  have hany : s.documents.any (fun r => decide (r.id = d.id))
      = t.documents.any fun r => decide (r.id = d.id) :=
    any_documents_bare h fun _ => rfl
  unfold insertDocument
  rw [hany]
  split
  · exact .error _
  · have hadd := congrArg (fun w : Store => { w with
      documents := w.documents ++ [(DocumentRow.encode d).bare]
      lines := w.lines ++ d.lines.map (LineRow.encode d.id) }) h
    refine .ok ⟨rfl, ?_⟩
    simpa only [bare, List.map_append, List.map_singleton] using hadd

end Writes

end Store

end Docket
