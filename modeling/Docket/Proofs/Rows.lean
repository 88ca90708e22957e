import Docket.Store.Basic

/-! # Reading stored rows

A row of a counter reads back exactly if it is the written form of a counter whose padding and year
are in range, and then as that counter. Rows are read together exactly if each of them reads. Rows
of documents and of changes read back exactly if they are the written form of one.
-/

namespace Docket

open Store

/-- Counters whose rows read back. -/
structure Counter.Storable (c : Counter) : Prop where
  padding : 1 ≤ c.settings.padding ∧ c.settings.padding ≤ 10
  year : ∀ y ∈ c.year, -int32Bound ≤ y ∧ y < int32Bound

namespace Store.CounterRow

theorem readPadding_eq_ok_iff {id : Id} {n : Int} {p : Nat} :
    readPadding id n = .ok p ↔ n = p ∧ 1 ≤ p ∧ p ≤ 10 := by
  unfold readPadding
  split
  · simp only [reduceCtorEq, false_iff]; omega
  · split <;> simp only [Except.ok.injEq, reduceCtorEq, false_iff] <;> omega

theorem yearFits_iff {r : CounterRow} :
    r.yearFits = true ↔ ∀ y ∈ r.year, -int32Bound ≤ y ∧ y < int32Bound := by
  cases h : r.year <;> simp [yearFits, h]

theorem checkColumns_eq_ok_iff {r : CounterRow} :
    r.checkColumns = .ok () ↔ r.yearFits = true ∧ r.paddingFits = true := by
  unfold checkColumns
  cases r.yearFits <;> cases r.paddingFits <;> simp

theorem decode_eq_ok_iff {r : CounterRow} {c : Counter} :
    r.decode = .ok c ↔ r = encode c ∧ c.Storable := by
  constructor
  · intro h
    cases hc : r.checkColumns with
    | error f => simp [decode, hc, bind, Except.bind] at h
    | ok u =>
      cases hp : readPadding r.id r.padding with
      | error f => simp [decode, hc, hp, bind, Except.bind] at h
      | ok p =>
        obtain ⟨hn, hp⟩ := readPadding_eq_ok_iff.mp hp
        simp only [decode, hc, hn, bind, Except.bind, pure, Except.pure,
          readPadding_eq_ok_iff.mpr ⟨rfl, hp⟩, Except.ok.injEq] at h
        subst h
        exact ⟨by simp [encode, ← hn], hp, yearFits_iff.mp (checkColumns_eq_ok_iff.mp hc).1⟩
  · rintro ⟨rfl, hp, hy⟩
    have hc : (encode c).checkColumns = .ok () := by
      refine checkColumns_eq_ok_iff.mpr ⟨yearFits_iff.mpr hy, ?_⟩
      rw [paddingFits, decide_eq_true_iff]
      simp only [encode, int16Bound]
      omega
    have hr : readPadding (encode c).id (encode c).padding = .ok c.settings.padding :=
      readPadding_eq_ok_iff.mpr ⟨rfl, hp⟩
    simp only [decode, hc, hr, bind, Except.bind, pure, Except.pure]
    rfl

theorem decode_encode {c : Counter} (h : c.Storable) : (encode c).decode = .ok c :=
  decode_eq_ok_iff.mpr ⟨rfl, h⟩

theorem exists_storable_iff {r : CounterRow} :
    (∃ c : Counter, r = encode c ∧ c.Storable) ↔
      (1 ≤ r.padding ∧ r.padding ≤ 10) ∧ ∀ y ∈ r.year, -int32Bound ≤ y ∧ y < int32Bound := by
  constructor
  · rintro ⟨c, rfl, hc⟩
    have hpadding := hc.padding
    exact ⟨by simp only [encode]; omega, hc.year⟩
  · rintro ⟨hpadding, hyear⟩
    refine ⟨{
      id := r.id, tenant := r.tenant, documentType := r.documentType, series := r.series
      year := r.year, value := r.value
      settings :=
        { lead := r.lead, padding := r.padding.toNat, pattern := r.pattern, resets := r.resets
          notes := r.notes }
      created := r.created, updated := r.updated, retired := r.retired }, ?_, ?_, hyear⟩
    · rw [encode, Int.toNat_of_nonneg (by omega)]
    · dsimp only
      omega

theorem forM_checkColumns {cs : List Counter} (h : ∀ c ∈ cs, c.Storable) :
    (cs.map encode).forM checkColumns = .ok () := by
  induction cs with
  | nil => rfl
  | cons c cs ih =>
    have hc : (encode c).checkColumns = .ok () := by
      have hd := decode_encode (h c (by simp))
      cases he : (encode c).checkColumns with
      | ok u => rfl
      | error f => simp [decode, he, bind, Except.bind] at hd
    rw [List.map_cons, List.forM, hc]
    exact ih fun d hd => h d (by simp [hd])

theorem mapM_decode_eq_ok_iff {rows : List CounterRow} {cs : List Counter} :
    rows.mapM decode = .ok cs ↔ rows = cs.map encode ∧ ∀ c ∈ cs, c.Storable := by
  induction rows generalizing cs with
  | nil => cases cs <;> simp [pure, Except.pure]
  | cons r rows ih =>
    rw [List.mapM_cons]
    constructor
    · intro h
      cases hr : r.decode with
      | error f => simp [hr, bind, Except.bind] at h
      | ok c =>
        cases hs : rows.mapM decode with
        | error f => simp [hr, hs, bind, Except.bind] at h
        | ok cs' =>
          simp only [hr, hs, bind, Except.bind, pure, Except.pure, Except.ok.injEq] at h
          subst h
          obtain ⟨rfl, hc⟩ := decode_eq_ok_iff.mp hr
          obtain ⟨rfl, hcs⟩ := ih.mp hs
          exact ⟨rfl, by simpa using ⟨hc, hcs⟩⟩
    · rintro ⟨he, hall⟩
      cases cs with
      | nil => simp at he
      | cons c cs =>
        simp only [List.map_cons, List.cons.injEq] at he
        obtain ⟨rfl, rfl⟩ := he
        rw [decode_encode (hall c (by simp)), ih.mpr ⟨rfl, fun d hd => hall d (by simp [hd])⟩]
        rfl

theorem decodeAll_eq_ok_iff {rows : List CounterRow} {cs : List Counter} :
    decodeAll rows = .ok cs ↔ rows = cs.map encode ∧ ∀ c ∈ cs, c.Storable := by
  constructor
  · intro h
    cases hf : rows.forM checkColumns with
    | error f => simp [decodeAll, hf, bind, Except.bind] at h
    | ok u =>
      rw [decodeAll, hf] at h
      exact mapM_decode_eq_ok_iff.mp h
  · rintro ⟨rfl, h⟩
    rw [decodeAll, forM_checkColumns h]
    exact mapM_decode_eq_ok_iff.mpr ⟨rfl, h⟩

theorem exists_decodeAll_iff {rows : List CounterRow} :
    (∃ cs, decodeAll rows = .ok cs) ↔ ∀ r ∈ rows, ∃ c : Counter, r = encode c ∧ c.Storable := by
  constructor
  · rintro ⟨cs, h⟩ r hr
    obtain ⟨rfl, hcs⟩ := decodeAll_eq_ok_iff.mp h
    obtain ⟨c, hc, rfl⟩ := List.mem_map.mp hr
    exact ⟨c, rfl, hcs c hc⟩
  · intro h
    induction rows with
    | nil => exact ⟨[], rfl⟩
    | cons r rows ih =>
      obtain ⟨c, rfl, hc⟩ := h r (by simp)
      obtain ⟨cs, hcs⟩ := ih fun q hq => h q (by simp [hq])
      obtain ⟨rfl, hall⟩ := decodeAll_eq_ok_iff.mp hcs
      exact ⟨c :: cs, decodeAll_eq_ok_iff.mpr ⟨rfl, by simpa using ⟨hc, hall⟩⟩⟩

end Store.CounterRow

namespace Store

theorem DocumentRow.decode_eq_ok_iff {r : DocumentRow} {lines : List Line} {d : Document} :
    r.decode lines = .ok d ↔ r = .encode d ∧ lines = d.lines := by
  unfold decode
  constructor
  · intro h
    split at h
    · cases h
    · next status hstatus =>
      obtain rfl := Except.ok.inj h
      have htext := Status.ofText?_eq_some_iff.mp hstatus
      exact ⟨by rw [encode, ← htext], rfl⟩
  · rintro ⟨rfl, rfl⟩
    have hstatus : Status.ofText? (encode d).status = some d.status := Status.ofText?_text d.status
    simp only [hstatus]
    rfl

theorem readStatus_eq_ok_iff {text : String} {status : Status} :
    readStatus text = .ok status ↔ text = status.text := by
  rw [← Status.ofText?_eq_some_iff, readStatus]
  cases Status.ofText? text <;> simp

/-- The row of a change names the tenant, which the change itself does not. -/
theorem ChangeRow.decode_eq_ok_iff {r : ChangeRow} {c : StatusChange} :
    r.decode = .ok c ↔ r = .encode r.tenant c := by
  constructor
  · intro h
    cases hsource : readStatus r.source with
    | error f => simp [decode, hsource, bind, Except.bind] at h
    | ok source =>
      cases htarget : readStatus r.target with
      | error f => simp [decode, hsource, htarget, bind, Except.bind] at h
      | ok target =>
        simp only [decode, hsource, htarget, bind, Except.bind, pure, Except.pure,
          Except.ok.injEq] at h
        subst h
        rw [encode, ← readStatus_eq_ok_iff.mp hsource, ← readStatus_eq_ok_iff.mp htarget]
  · intro h
    have hsource : readStatus r.source = .ok c.source :=
      readStatus_eq_ok_iff.mpr (congrArg ChangeRow.source h)
    have htarget : readStatus r.target = .ok c.target :=
      readStatus_eq_ok_iff.mpr (congrArg ChangeRow.target h)
    rw [decode, hsource, htarget, h]
    rfl

theorem ChangeRow.decode_encode (tenant : Id) (c : StatusChange) :
    (ChangeRow.encode tenant c).decode = .ok c :=
  decode_eq_ok_iff.mpr rfl

end Store

end Docket
