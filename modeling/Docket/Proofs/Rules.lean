import Docket.Service.Documents

/-! # What the rules ask for

The conditions under which a change of status is valid and under which a document may be given a
number.
-/

namespace Docket

namespace Status

theorem text_injective {a b : Status} (h : a.text = b.text) : a = b :=
  Option.some.inj ((ofText?_text a).symm.trans (h ▸ ofText?_text b))

theorem not_canChangeTo_of_isFinal {source target : Status} (h : source.isFinal = true) :
    source.canChangeTo target = false := by
  cases source with
  | draft | opened => cases h
  | closed | cancelled => rfl

end Status

theorem Decimal.isPositive_iff {x : Decimal} : x.isPositive = true ↔ 0 < x.toRat := by
  have hpower : (0 : Rat) < (Nat.pow 10 x.places : Nat) :=
    Rat.natCast_pos.mpr (Nat.pow_pos (by decide))
  rw [Decimal.isPositive, decide_eq_true_eq, Decimal.toRat, Rat.lt_div_iff hpower, Rat.zero_mul,
    Rat.intCast_pos]

namespace Document

variable {d : Document} {target : Status}

theorem canChangeTo_of_valid (h : d.checkChange target = .ok .valid) :
    d.status.canChangeTo target = true := by
  unfold checkChange at h
  split at h
  · next hallowed => exact hallowed
  · cases h

theorem not_isFinal_of_valid (h : d.checkChange target = .ok .valid) :
    d.status.isFinal = false := by
  cases hfinal : d.status.isFinal with
  | false => rfl
  | true =>
    have hallowed := canChangeTo_of_valid h
    rw [Status.not_canChangeTo_of_isFinal hfinal] at hallowed
    cases hallowed

theorem checkOpen_eq_valid_iff :
    d.checkOpen = .valid ↔ d.party.isSome = true ∧ d.documentType.isSome = true := by
  unfold checkOpen
  cases d.party <;> cases d.documentType <;> simp

theorem checkClose_eq_valid_iff :
    d.checkClose = .ok .valid ↔
      d.lines ≠ [] ∧ (∃ total, d.grossTotal = .ok total ∧ total.isPositive = true) ∧
        d.party.isSome = true ∧ d.number.isSome = true := by
  unfold checkClose
  cases d.lines with
  | nil => simp
  | cons l ls =>
    cases d.grossTotal with
    | error o => simp
    | ok total =>
      cases htotal : total.isPositive <;> cases d.party <;> cases d.number <;> simp [htotal]

theorem checkOpen_of_valid (h : d.checkChange .opened = .ok .valid) : d.checkOpen = .valid := by
  rw [checkChange, if_pos (canChangeTo_of_valid h)] at h
  exact Except.ok.inj h

theorem checkClose_of_valid (h : d.checkChange .closed = .ok .valid) :
    d.checkClose = .ok .valid := by
  rw [checkChange, if_pos (canChangeTo_of_valid h)] at h
  exact h

theorem status_of_closes (h : d.checkChange .closed = .ok .valid) : d.status = .opened := by
  have hallowed := canChangeTo_of_valid h
  cases hstatus : d.status with
  | opened => rfl
  | draft | closed | cancelled =>
    rw [hstatus] at hallowed
    cases hallowed

end Document

theorem Service.checkUnnumbered_eq_ok_iff {d : Document} :
    checkUnnumbered d = .ok () ↔ d.status.isFinal = false ∧ d.number = none := by
  unfold checkUnnumbered
  cases d.status.isFinal <;> cases d.number <;> simp

end Docket
