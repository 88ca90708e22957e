import Docket.Proofs.Rules

/-! # Verdicts on changes of status

What the rules ask for depends on the target: that there is such a change at all, and then the
target's own conditions, in a fixed order. A change is valid if all of them are met, and is rejected
for the first one that is not.
-/

namespace Docket

/-- The changes of status that there are. -/
def Status.changes : List (Status × Status) :=
  [(draft, opened), (draft, cancelled), (opened, closed), (opened, draft), (opened, cancelled)]

theorem Status.canChangeTo_iff {source target : Status} :
    source.canChangeTo target = true ↔ (source, target) ∈ changes := by
  cases source <;> cases target <;> decide

/-- What is asked of a document whose status changes. -/
inductive Condition where
  | tabled
  | party
  | documentType
  | lines
  | total
  | number

namespace Condition

/-- The conditions for a target, in the order of the rules. -/
def order : Status → List Condition
  | .opened => [tabled, party, documentType]
  | .closed => [tabled, lines, total, party, number]
  | .draft | .cancelled => [tabled]

/-- How a change is rejected for a condition. -/
def kind : Condition → RejectionKind
  | tabled => .invalidTransition
  | party => .missingBusinessParty
  | documentType => .missingDocumentType
  | lines => .noRows
  | total => .zeroTotal
  | number => .missingNumber

def Met (d : Document) (target : Status) : Condition → Prop
  | tabled => (d.status, target) ∈ Status.changes
  | party => d.party.isSome = true
  | documentType => d.documentType.isSome = true
  | lines => d.lines ≠ []
  | total => ∃ total, d.grossTotal = .ok total ∧ 0 < total.toRat
  | number => d.number.isSome = true

theorem order_eq_cons (target : Status) : order target = tabled :: (order target).tail := by
  cases target <;> rfl

theorem met_tabled_iff {d : Document} {target : Status} :
    tabled.Met d target ↔ d.status.canChangeTo target = true :=
  Status.canChangeTo_iff.symm

theorem kind_eq_invalidTransition_iff {c : Condition} :
    c.kind = .invalidTransition ↔ c = tabled := by
  cases c <;> simp [kind]

theorem kind_ne_cannotCancelClosed (c : Condition) : c.kind ≠ .cannotCancelClosed := by
  cases c <;> decide

end Condition

namespace Document

/-- The first of some conditions that is not met. -/
def FirstUnmet (d : Document) (target : Status) (cs : List Condition) (c : Condition) : Prop :=
  ∃ before after, cs = before ++ c :: after ∧ (∀ b ∈ before, b.Met d target) ∧ ¬ c.Met d target

/-- Documents that the rules do not tell apart. -/
structure Indistinct (d e : Document) : Prop where
  status : e.status = d.status
  lines : e.lines = d.lines
  party : e.party.isSome = d.party.isSome
  documentType : e.documentType.isSome = d.documentType.isSome
  number : e.number.isSome = d.number.isSome

/-- A verdict comes from going through some conditions, one after another. -/
inductive Judged (d : Document) (target : Status) : List Condition → Verdict → Prop
  | valid : Judged d target [] .valid
  | rejected {c : Condition} {cs : List Condition} {o : Objection} (unmet : ¬ c.Met d target)
      (kind : o.kind = c.kind) : Judged d target (c :: cs) (.rejected o)
  | next {c : Condition} {cs : List Condition} {verdict : Verdict} (met : c.Met d target)
      (rest : Judged d target cs verdict) : Judged d target (c :: cs) verdict

variable {d e : Document} {target : Status} {b c : Condition} {cs : List Condition}
  {verdict : Verdict} {o : Objection}

theorem firstUnmet_head (h : ¬ c.Met d target) (cs : List Condition) :
    d.FirstUnmet target (c :: cs) c :=
  ⟨[], cs, rfl, nofun, h⟩

theorem FirstUnmet.cons (h : d.FirstUnmet target cs c) (hmet : b.Met d target) :
    d.FirstUnmet target (b :: cs) c := by
  obtain ⟨before, after, rfl, hbefore, hunmet⟩ := h
  exact ⟨b :: before, after, rfl, List.forall_mem_cons.mpr ⟨hmet, hbefore⟩, hunmet⟩

namespace Judged

theorem check {fails : Bool} (hfails : fails = true ↔ ¬ c.Met d target) (hkind : o.kind = c.kind)
    (hrest : Judged d target cs verdict) :
    Judged d target (c :: cs) (if fails then .rejected o else verdict) := by
  split
  · next h => exact .rejected (hfails.mp h) hkind
  · next h => exact .next (Classical.not_not.mp (mt hfails.mpr h)) hrest

theorem eq_valid_iff (h : Judged d target cs verdict) :
    verdict = .valid ↔ ∀ c ∈ cs, c.Met d target := by
  induction h with
  | valid => simp
  | rejected unmet => simp [unmet]
  | next met rest ih => simp [met, ih]

/-- A rejection is for the first condition that is not met. -/
theorem exists_firstUnmet (h : Judged d target cs verdict) (ho : verdict = .rejected o) :
    ∃ c, d.FirstUnmet target cs c ∧ o.kind = c.kind := by
  induction h with
  | valid => cases ho
  | rejected unmet kind =>
    cases ho
    exact ⟨_, firstUnmet_head unmet _, kind⟩
  | next met rest ih =>
    obtain ⟨c, hc, hkind⟩ := ih ho
    exact ⟨c, hc.cons met, hkind⟩

end Judged

theorem judged_checkOpen : Judged d .opened [.party, .documentType] d.checkOpen := by
  apply Judged.check _ rfl
  · apply Judged.check _ rfl .valid
    simp [Condition.Met]
  · simp [Condition.Met]

theorem met_total_iff {total : Decimal} (htotal : d.grossTotal = .ok total) :
    Condition.total.Met d target ↔ total.isPositive = true := by
  rw [Decimal.isPositive_iff]
  constructor
  · rintro ⟨sum, hsum, hpositive⟩
    obtain rfl := Except.ok.inj (hsum.symm.trans htotal)
    exact hpositive
  · exact fun hpositive => ⟨total, htotal, hpositive⟩

theorem judged_checkClose (h : d.checkClose = .ok verdict) :
    Judged d .closed [.lines, .total, .party, .number] verdict := by
  unfold checkClose at h
  split at h
  · next hlines =>
    cases h
    exact .rejected (not_not_intro (List.isEmpty_iff.mp hlines)) rfl
  · next hlines =>
    have hmet : Condition.lines.Met d .closed := mt List.isEmpty_iff.mpr hlines
    cases htotal : d.grossTotal with
    | error f =>
      rw [htotal] at h
      cases h
    | ok total =>
      rw [htotal] at h
      cases h
      -- The rules that are left, in the order of the conditions.
      apply Judged.next hmet
      apply Judged.check _ rfl
      · apply Judged.check _ rfl
        · apply Judged.check _ rfl .valid
          simp [Condition.Met]
        · simp [Condition.Met]
      · rw [met_total_iff htotal, Bool.not_eq_true', Bool.not_eq_true]

theorem judged_checkChange (h : d.checkChange target = .ok verdict) :
    Judged d target (Condition.order target) verdict := by
  unfold checkChange at h
  split at h
  · next htable =>
    have htabled := Condition.met_tabled_iff.mpr htable
    cases target with
    | opened =>
      cases h
      exact .next htabled judged_checkOpen
    | closed => exact .next htabled (judged_checkClose h)
    | cancelled =>
      -- The table has no change of a closed document.
      have hstatus : d.status ≠ .closed := by
        intro hclosed
        rw [hclosed] at htable
        cases htable
      rw [checkCancel, if_neg hstatus] at h
      cases h
      exact .next htabled .valid
    | draft =>
      -- By the table it is an open document that returns.
      have hstatus : d.status = .opened := by
        cases hstatus : d.status with
        | opened => rfl
        | draft | closed | cancelled => rw [hstatus] at htable; cases htable
      rw [checkRevert, if_pos hstatus] at h
      cases h
      exact .next htabled .valid
  · next htable =>
    cases h
    rw [Condition.order_eq_cons]
    exact .rejected (mt Condition.met_tabled_iff.mp htable) rfl

theorem exists_checkChange {total : Decimal} (htotal : d.grossTotal = .ok total)
    (target : Status) : ∃ verdict, d.checkChange target = .ok verdict := by
  have hclose : ∃ verdict, d.checkClose = .ok verdict := by
    rw [checkClose, htotal]
    split <;> exact ⟨_, rfl⟩
  unfold checkChange
  split
  · cases target with
    | closed => exact hclose
    | opened | cancelled | draft => exact ⟨_, rfl⟩
  · exact ⟨_, rfl⟩

theorem kind_of_rejected (h : d.checkChange target = .ok (.rejected o)) :
    o.kind ≠ .cannotCancelClosed := by
  obtain ⟨c, -, hkind⟩ := (judged_checkChange h).exists_firstUnmet rfl
  rw [hkind]
  exact c.kind_ne_cannotCancelClosed

/-- A change is rejected as one that there is not exactly where it is not in the table. -/
theorem exists_invalidTransition_iff :
    (∃ o, d.checkChange target = .ok (.rejected o) ∧ o.kind = .invalidTransition) ↔
      target ∉ d.status.available := by
  have hallowed : d.status.canChangeTo target = true ↔ target ∈ d.status.available :=
    List.contains_iff_mem
  rw [← hallowed]
  constructor
  · rintro ⟨o, ho, hkind⟩ htable
    obtain ⟨c, hunmet, hc⟩ := (judged_checkChange ho).exists_firstUnmet rfl
    obtain rfl := Condition.kind_eq_invalidTransition_iff.mp (hc.symm.trans hkind)
    obtain ⟨before, after, -, -, hunmet⟩ := hunmet
    exact hunmet (Condition.met_tabled_iff.mpr htable)
  · intro htable
    unfold checkChange
    rw [if_neg htable]
    exact ⟨_, rfl, rfl⟩

theorem Indistinct.checkChange_eq (h : d.Indistinct e) (target : Status) :
    e.checkChange target = d.checkChange target := by
  have hparty : e.party.isNone = d.party.isNone := by
    rw [← Option.not_isSome, ← Option.not_isSome, h.party]
  have htype : e.documentType.isNone = d.documentType.isNone := by
    rw [← Option.not_isSome, ← Option.not_isSome, h.documentType]
  have hnumber : e.number.isNone = d.number.isNone := by
    rw [← Option.not_isSome, ← Option.not_isSome, h.number]
  simp only [checkChange, checkOpen, checkClose, checkCancel, checkRevert, grossTotal, h.status,
    h.lines, hparty, htype, hnumber]

/-- A change is valid exactly if all conditions for its target are met, and otherwise it is rejected
for the first that is not. The business party, the type and the number only count as present or
not. -/
theorem changes_judged_in_order (d : Document) (target : Status) :
    (∀ total, d.grossTotal = .ok total →
      (d.checkChange target = .ok .valid ↔ ∀ c ∈ Condition.order target, c.Met d target) ∧
      (d.checkChange target ≠ .ok .valid → ∃ o, d.checkChange target = .ok (.rejected o) ∧
        ∃ c, d.FirstUnmet target (Condition.order target) c ∧ o.kind = c.kind)) ∧
    (∀ o, d.checkChange target = .ok (.rejected o) → o.kind ≠ .cannotCancelClosed) ∧
    ∀ e, d.Indistinct e → e.checkChange target = d.checkChange target := by
  refine ⟨fun total htotal => ?_, fun o => kind_of_rejected, fun e h => h.checkChange_eq target⟩
  obtain ⟨verdict, hverdict⟩ := exists_checkChange htotal target
  have hjudged := judged_checkChange hverdict
  rw [hverdict, Except.ok.injEq]
  constructor
  · exact hjudged.eq_valid_iff
  · intro hinvalid
    cases verdict with
    | valid => exact absurd rfl hinvalid
    | rejected o => exact ⟨o, rfl, hjudged.exists_firstUnmet rfl⟩

def unready : Document :=
  { id := default, tenant := default, status := .opened, number := none, party := none
    documentType := some default, lines := [⟨1, "", .zero, .zero, .zero⟩], closedAt := none
    version := 1, created := default, updated := default }

/-- It has lines, and so it is its total that counts first. -/
theorem changes_judged_in_order_unready :
    unready.checkChange .closed = .ok (.rejected (.closeWithoutTotal .zero)) ∧
      ∃ c, unready.FirstUnmet .closed (Condition.order .closed) c ∧ c.kind = .zeroTotal := by
  have hverdict : unready.checkChange .closed = .ok (.rejected (.closeWithoutTotal .zero)) := rfl
  have hinvalid : unready.checkChange .closed ≠ .ok .valid := by
    rw [hverdict]
    exact nofun
  obtain ⟨o, ho, c, hc, hkind⟩ := ((changes_judged_in_order unready .closed).1 .zero rfl).2 hinvalid
  rw [hverdict] at ho
  cases ho
  exact ⟨hverdict, c, hc, hkind.symm⟩

end Document

end Docket
