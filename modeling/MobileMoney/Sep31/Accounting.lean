import MobileMoney.Library.Runs
import MobileMoney.Sep31.Program

/-!
# What becomes of an incoming payment

The candidate of a transfer is chosen before its memo is looked at, so the payment of
another transfer can be refunded, and the row that a refund has been recorded in is at once
overwritten from the metadata selected before. The accounting law holds of a run exactly
when none of its refunds is carried out and no payment of another memo stands before the
one a transfer waits for.
-/

namespace MobileMoney.Sep31

open Binary64
open Ledger (parseAmount)

/-! ## The law -/

/-- The payment is of the amount, the asset and the memo of the transfer. -/
def Right (row : Row) (payment : Payment) : Prop :=
  payment.amount = row.amount ∧ assetMatches payment row.metadata = true ∧
    payment.memo = some row.metadata.memo ∧
    payment.memoType = some row.metadata.expectedMemoType

/-- The pending transfer that a step checks, and the payments it examines. -/
def examines (s : State) : Event → Option (Row × List StellarPaymentRecord)
  | .check answer =>
    match s.todo, answer.payments with
    | row :: _, some payments =>
      if mapToSep31Status row = .pendingSender then some (row, payments) else none
    | _, _ => none
  | _ => none

/-- The metadata of the transfer tells that this payment has been refunded. -/
def Records (row : Row) (payment : Payment) : Prop :=
  row.metadata.refunded = true ∧ ∃ refund, row.metadata.refund = some refund ∧
    refund.transactionHash = payment.transactionHash

/-- What must hold after a step: credited payments carry the memo of their transfer, which
is never moved to error; no payment is both credited and refunded or refunded twice; a
transfer whose payment is among those examined is credited; and refunds are recorded. -/
structure Lawful (s : State) (e : Event) : Prop where
  credited : ∀ x ∈ (advance s e).credits, ∃ row ∈ (advance s e).table.rows, row.id = x.1 ∧
    x.2.memo = some row.metadata.memo ∧ x.2.memoType = some row.metadata.expectedMemoType ∧
    mapToSep31Status row ≠ .error
  exclusive : ∀ x ∈ (advance s e).credits, ∀ y ∈ (advance s e).refunds, x.2 ≠ y.2
  once : ((advance s e).refunds.map (·.2)).Nodup
  settled : ∀ row payments, examines s e = some (row, payments) →
    (∃ p ∈ payments, Right row p.payment) → ∃ payment, (row.id, payment) ∈ (advance s e).credits
  recorded : ∀ x ∈ (advance s e).refunds, ∃ row ∈ (advance s e).table.rows, row.id = x.1 ∧
    Records row x.2

/-! ## The condition -/

/-- The refund that a step would ask for. -/
def refunds (s : State) (e : Event) : Option StellarPaymentRecord :=
  match examines s e with
  | some (row, payments) =>
    match matchPaymentByMemo row payments with
    | some (p, false) => if row.metadata.refunded then none else some p
    | _ => none
  | none => none

def RefundOutcome.isFailed : RefundOutcome → Bool
  | .failed => true
  | _ => false

def Event.refundFailed : Event → Bool
  | .check answer => answer.refund.isFailed
  | _ => true

/-- The condition on a step: no refund is carried out, and where the payment that a transfer
waits for is among those examined, the first one of that amount and asset has its memo. -/
structure Careful (s : State) (e : Event) : Prop where
  unrefunded : (refunds s e).isSome = true → e.refundFailed = true
  first : ∀ row payments, examines s e = some (row, payments) →
    (∃ p ∈ payments, Right row p.payment) → ∀ p, payments.find? (qualifies row) = some p →
    memoMatches p row.metadata.memo row.metadata.expectedMemoType = true

/-! ## Matching -/

theorem amountMatches_self {n : ℤ} (h : |n| < 10 ^ 20) : amountMatches n n = true := by
  have hbound : |(n / 10 ^ 7 : ℚ)| < 2 ^ (64 : ℤ) := by
    have hcast : |(n : ℚ)| < 10 ^ 20 := by exact_mod_cast h
    rw [abs_div, abs_of_pos (by norm_num : (0 : ℚ) < 10 ^ 7), div_lt_iff₀ (by norm_num)]
    calc |(n : ℚ)| < 10 ^ 20 := hcast
      _ ≤ 2 ^ (64 : ℤ) * 10 ^ 7 := by norm_num
  obtain ⟨y, hy, -⟩ := Number.exists_ofRat (by norm_num) (by norm_num) hbound
  have tolerance : Number.lt (Number.abs (.ofRat 0)) amountTolerance = true := by decide +kernel
  rw [amountMatches, parseAmount, hy, Number.sub_finite, sub_self, tolerance]

theorem truthy_eq_some {text : Option String} {s : String} :
    truthy text = some s ↔ text = some s ∧ s ≠ "" := by
  simp [truthy, Option.filter_eq_some_iff]

/-- A valid memo is the memo of the transfer. -/
theorem memo_of_matches {p : StellarPaymentRecord} {memo memoType : String}
    (h : memoMatches p memo memoType = true) :
    p.payment.memo = some memo ∧ p.payment.memoType = some memoType := by
  unfold memoMatches at h
  split at h
  · next memo' memoType' hmemo hmemoType =>
    simp only [Bool.and_eq_true, decide_eq_true_eq] at h
    obtain ⟨rfl, rfl⟩ := h
    have hmemo := (truthy_eq_some.1 hmemo).1
    have hmemoType := (truthy_eq_some.1 hmemoType).1
    unfold StellarPaymentRecord.memo at hmemo
    unfold StellarPaymentRecord.memoType at hmemoType
    split_ifs at hmemo hmemoType
    exact ⟨hmemo, hmemoType⟩
  · cases h

/-- The payment that a transfer waits for is a candidate, so there is a first one. -/
theorem exists_candidate {row : Row} {payments : List StellarPaymentRecord}
    (h : ∃ p ∈ payments, Right row p.payment) :
    ∃ p, payments.find? (qualifies row) = some p := by
  obtain ⟨p, hp, hamount, hasset, -⟩ := h
  have hqualifies : qualifies row p = true := by
    rw [qualifies, hamount, amountMatches_self row.inRange, hasset]
    rfl
  cases hfind : payments.find? (qualifies row) with
  | none => exact absurd hqualifies (List.find?_eq_none.1 hfind p hp)
  | some candidate => exact ⟨candidate, rfl⟩

/-! ## The table -/

/-- The row that a status update leaves behind. -/
def updatedRow (newStatus : Sep31Status) (metadata : Sep31Metadata) (row : Row) : Row :=
  { row with
    metadata := { metadata with status := some newStatus }
    status := Queue.updateStatus row.status (transactionStatus newStatus) }

theorem mem_updateSep31Status {table : Table} {id : ℕ} {newStatus : Sep31Status}
    {metadata : Sep31Metadata} {row' : Row} :
    row' ∈ (updateSep31Status table id newStatus metadata).rows ↔ ∃ row ∈ table.rows,
      row' = if row.id = id then updatedRow newStatus metadata row else row := by
  simp only [updateSep31Status, updateStatus, updateMetadata, Keyed.mem_modify]
  constructor
  · rintro ⟨written, ⟨row, hrow, rfl⟩, rfl⟩
    refine ⟨row, hrow, ?_⟩
    by_cases hid : row.id = id <;> simp [hid, updatedRow]
  · rintro ⟨row, hrow, rfl⟩
    refine ⟨_, ⟨row, hrow, rfl⟩, ?_⟩
    by_cases hid : row.id = id <;> simp [hid, updatedRow]

/-- Rows with another id are still there. -/
theorem mem_of_ne {table : Table} {id : ℕ} {row : Row} (newStatus : Sep31Status)
    (metadata : Sep31Metadata) (h : row ∈ table.rows) (hne : row.id ≠ id) :
    row ∈ (updateSep31Status table id newStatus metadata).rows :=
  mem_updateSep31Status.2 ⟨row, h, by rw [if_neg hne]⟩

/-- The row with the id has the metadata that was written. -/
theorem metadata_of_mem {table : Table} {id : ℕ} {newStatus : Sep31Status}
    {metadata : Sep31Metadata} {row' : Row}
    (h : row' ∈ (updateSep31Status table id newStatus metadata).rows) (hid : row'.id = id) :
    row'.metadata = { metadata with status := some newStatus } := by
  obtain ⟨row, -, rfl⟩ := mem_updateSep31Status.1 h
  split_ifs at hid ⊢ with heq
  · rfl
  · exact absurd hid heq

/-! ## What a check does -/

/-- What checking a row can do. -/
inductive CheckMove (s : State) (row : Row) (answer : Answer) : State → Prop where
  | idle (unrefunded : mapToSep31Status row = .pendingSender → ∀ payments p,
      answer.payments = some payments → matchPaymentByMemo row payments = some p →
      p.2 = false ∧ row.metadata.refunded = true) : CheckMove s row answer s
  | credit {payments p} (pending : mapToSep31Status row = .pendingSender)
      (shown : answer.payments = some payments)
      (candidate : payments.find? (qualifies row) = some p)
      (valid : memoMatches p row.metadata.memo row.metadata.expectedMemoType = true) :
      CheckMove s row answer
        { s with
          table := updateSep31Status s.table row.id .pendingStellar row.metadata
          credits := s.credits ++ [(row.id, p.payment)] }
  | refund {payments p} (pending : mapToSep31Status row = .pendingSender)
      (shown : answer.payments = some payments)
      (candidate : payments.find? (qualifies row) = some p)
      (invalid : memoMatches p row.metadata.memo row.metadata.expectedMemoType = false)
      (fresh : row.metadata.refunded = false) : CheckMove s row answer
        { refundMismatchedPayment s row p answer.refund with
          table := updateSep31Status (refundMismatchedPayment s row p answer.refund).table row.id
            .error row.metadata }
  | complete (pending : mapToSep31Status row = .pendingReceiver) : CheckMove s row answer
        { s with table := updateSep31Status s.table row.id .completed row.metadata }

theorem checkRow_move (s : State) (row : Row) (answer : Answer) :
    CheckMove s row answer (checkRow s row answer) := by
  unfold checkRow
  cases hstatus : mapToSep31Status row with
  | pendingSender =>
    dsimp only
    cases hpayments : answer.payments with
    | none => exact .idle fun _ _ _ hnone => nomatch hpayments.symm.trans hnone
    | some payments =>
      rw [Option.bind_some]
      cases hfind : payments.find? (qualifies row) with
      | none =>
        have unmatched : matchPaymentByMemo row payments = none := by
          rw [matchPaymentByMemo, hfind, Option.map_none]
        rw [unmatched]
        refine .idle fun _ payments' p hshown hmatch => ?_
        cases hpayments.symm.trans hshown
        cases unmatched.symm.trans hmatch
      | some p =>
        cases hvalid : memoMatches p row.metadata.memo row.metadata.expectedMemoType with
        | true =>
          rw [matchPaymentByMemo, hfind, Option.map_some, hvalid]
          exact .credit hstatus hpayments hfind hvalid
        | false =>
          rw [matchPaymentByMemo, hfind, Option.map_some, hvalid]
          dsimp only
          split_ifs with hrefunded
          · refine .idle fun _ payments' p' hshown hmatch => ?_
            cases hpayments.symm.trans hshown
            rw [matchPaymentByMemo, hfind, Option.map_some, hvalid] at hmatch
            cases hmatch
            exact ⟨rfl, hrefunded⟩
          · exact .refund hstatus hpayments hfind hvalid (Bool.not_eq_true _ ▸ hrefunded)
  | pendingReceiver => exact .complete hstatus
  | completed | error | pendingStellar | pendingExternal =>
    refine .idle fun hpending => ?_
    rw [hstatus] at hpending
    cases hpending

/-! ## The invariant -/

/-- Nothing has been refunded, the rows still to be checked are as they were selected, and
what has been credited waits for Stellar. -/
structure Inv (s : State) : Prop where
  unrefunded : s.refunds = []
  current : ∀ row ∈ s.todo, row ∈ s.table.rows
  each : (s.todo.map (·.id)).Nodup
  credited : ∀ x ∈ s.credits, ∃ row ∈ s.table.rows, row.id = x.1 ∧
    x.2.memo = some row.metadata.memo ∧ x.2.memoType = some row.metadata.expectedMemoType ∧
    row.metadata.status = some .pendingStellar

theorem mapToSep31Status_of_some {row : Row} {status : Sep31Status}
    (h : row.metadata.status = some status) : mapToSep31Status row = status := by
  rw [mapToSep31Status, h]

/-- A status update of the row that is checked, which has not been credited. -/
theorem inv_update {s : State} {row : Row} {rest : List Row} {newStatus : Sep31Status}
    {credits : List (ℕ × Payment)} (h : Inv s) (todo : s.todo = row :: rest)
    (waiting : mapToSep31Status row ≠ .pendingStellar)
    (credited : ∀ x ∈ credits, x ∈ s.credits ∨ x.1 = row.id ∧ newStatus = .pendingStellar ∧
      x.2.memo = some row.metadata.memo ∧ x.2.memoType = some row.metadata.expectedMemoType) :
    Inv ⟨updateSep31Status s.table row.id newStatus row.metadata, rest, credits, s.refunds⟩ := by
  have hrow : row ∈ s.table.rows := h.current row (todo ▸ List.mem_cons_self)
  have each := h.each
  rw [todo, List.map_cons, List.nodup_cons] at each
  constructor
  case unrefunded => exact h.unrefunded
  case each => exact each.2
  case current =>
    intro other hother
    refine mem_of_ne _ _ (h.current other (todo ▸ List.mem_cons_of_mem _ hother)) ?_
    intro hid
    exact each.1 (hid ▸ List.mem_map_of_mem hother)
  case credited =>
    intro x hx
    rcases credited x hx with hold | ⟨hid, rfl, hmemo, hmemoType⟩
    · obtain ⟨row', hrow', hid, hmemo, hmemoType, hstatus⟩ := h.credited x hold
      refine ⟨row', mem_of_ne _ _ hrow' ?_, hid, hmemo, hmemoType, hstatus⟩
      intro hsame
      rw [← s.table.eq_of_mem hrow' hrow hsame] at waiting
      exact waiting (mapToSep31Status_of_some hstatus)
    · refine ⟨updatedRow .pendingStellar row.metadata row, ?_, hid.symm, hmemo, hmemoType, rfl⟩
      exact mem_updateSep31Status.2 ⟨row, hrow, by rw [if_pos rfl]⟩

theorem inv_select {s : State} {rows : List Row} (h : Inv s)
    (perm : rows.Perm (s.table.rows.filter Row.isSelected)) : Inv { s with todo := rows } where
  unrefunded := h.unrefunded
  current row hrow := (List.mem_filter.1 (perm.mem_iff.1 hrow)).1
  each := by
    have sublist := (s.table.rows.filter_sublist (p := Row.isSelected)).map (·.id)
    exact (perm.map (·.id)).nodup_iff.2 (s.table.nodup.sublist sublist)
  credited := h.credited

theorem inv_register {s : State} {row : Row} (h : Inv s) :
    Inv { s with table := s.table.insert row } where
  unrefunded := h.unrefunded
  current row' hrow' := Keyed.mem_insert_of_mem (h.current row' hrow')
  each := h.each
  credited x hx := by
    obtain ⟨row', hrow', rest⟩ := h.credited x hx
    exact ⟨row', Keyed.mem_insert_of_mem hrow', rest⟩

/-! ## The steps of a run -/

theorem examines_eq_some {s : State} {e : Event} {row : Row}
    {payments : List StellarPaymentRecord} (h : examines s e = some (row, payments)) :
    ∃ answer rest, e = .check answer ∧ s.todo = row :: rest ∧ answer.payments = some payments ∧
      mapToSep31Status row = .pendingSender := by
  cases e with
  | register row' => cases h
  | select rows => cases h
  | check answer =>
    unfold examines at h
    dsimp only at h
    split at h
    · next row' rest payments' htodo hpayments =>
      split_ifs at h with hpending
      cases h
      exact ⟨answer, rest, rfl, htodo, hpayments, hpending⟩
    · cases h

theorem examines_check {s : State} {row : Row} {rest : List Row} {answer : Answer}
    {payments : List StellarPaymentRecord} (todo : s.todo = row :: rest)
    (pending : mapToSep31Status row = .pendingSender) (shown : answer.payments = some payments) :
    examines s (.check answer) = some (row, payments) := by
  simp only [examines, todo, shown]
  rw [if_pos pending]

/-- A refund is asked for when the candidate has the wrong memo and none is recorded. -/
theorem refunds_eq_some {s : State} {e : Event} {p : StellarPaymentRecord} :
    refunds s e = some p ↔ ∃ row payments, examines s e = some (row, payments) ∧
      payments.find? (qualifies row) = some p ∧
      memoMatches p row.metadata.memo row.metadata.expectedMemoType = false ∧
      row.metadata.refunded = false := by
  constructor
  · intro h
    unfold refunds at h
    split at h
    · next row payments hexamines =>
      split at h
      · next p' hmatch =>
        split_ifs at h with hrefunded
        cases h
        obtain ⟨candidate, hfind, hpair⟩ := Option.map_eq_some_iff.1 hmatch
        obtain ⟨rfl, hvalid⟩ := Prod.mk.inj hpair
        exact ⟨row, payments, hexamines, hfind, hvalid, Bool.not_eq_true _ ▸ hrefunded⟩
      · cases h
    · cases h
  · rintro ⟨row, payments, hexamines, hfind, hvalid, hrefunded⟩
    have hmatch : matchPaymentByMemo row payments = some (p, false) := by
      rw [matchPaymentByMemo, hfind, Option.map_some, hvalid]
    simp [refunds, hexamines, hmatch, hrefunded]

theorem advance_check {s : State} {row : Row} {rest : List Row} (answer : Answer)
    (todo : s.todo = row :: rest) :
    advance s (.check answer) = checkRow { s with todo := rest } row answer := by
  simp only [advance, todo]

@[simp] theorem credits_refundMismatchedPayment (s : State) (row : Row)
    (p : StellarPaymentRecord) (outcome : RefundOutcome) :
    (refundMismatchedPayment s row p outcome).credits = s.credits := by
  cases outcome with
  | failed => rfl
  | unacknowledged => rfl
  | sent hash recorded => rfl

theorem RefundOutcome.eq_failed {outcome : RefundOutcome} (h : outcome.isFailed = true) :
    outcome = .failed := by
  cases outcome with
  | failed => rfl
  | unacknowledged => cases h
  | sent hash recorded => cases h

theorem inv_advance {s : State} {e : Event} (h : Inv s) (careful : Careful s e) :
    Inv (advance s e) := by
  cases e with
  | register row => exact inv_register h
  | select rows =>
    unfold advance
    dsimp only
    split_ifs with hselect
    · exact inv_select h (List.isPerm_iff.1 hselect.2)
    · exact h
  | check answer =>
    cases htodo : s.todo with
    | nil =>
      simp only [advance, htodo]
      exact h
    | cons row rest =>
      rw [advance_check answer htodo]
      have move := checkRow_move { s with todo := rest } row answer
      generalize checkRow { s with todo := rest } row answer = s' at move
      cases move with
      | idle =>
        constructor
        case unrefunded => exact h.unrefunded
        case current =>
          intro row' hrow'
          exact h.current row' (htodo ▸ List.mem_cons_of_mem _ hrow')
        case each => exact (htodo ▸ h.each : ((row :: rest).map (·.id)).Nodup).of_cons
        case credited => exact h.credited
      | credit pending shown candidate valid =>
        refine inv_update (s := s) h htodo (by rw [pending]; decide) ?_
        intro x hx
        rcases List.mem_append.1 hx with hold | hnew
        · exact .inl hold
        · obtain rfl := List.mem_singleton.1 hnew
          exact .inr ⟨rfl, rfl, memo_of_matches valid⟩
      | refund pending shown candidate invalid fresh =>
        have hrefund : refunds s (.check answer) = some _ :=
          refunds_eq_some.2 ⟨row, _, examines_check htodo pending shown, candidate, invalid, fresh⟩
        have hfailed := careful.unrefunded (by rw [hrefund]; rfl)
        rw [RefundOutcome.eq_failed hfailed]
        exact inv_update (s := s) h htodo (by rw [pending]; decide) fun _ hx => .inl hx
      | complete pending =>
        exact inv_update (s := s) h htodo (by rw [pending]; decide) fun _ hx => .inl hx

theorem lawful_of_careful {s : State} {e : Event} (h : Inv s) (careful : Careful s e) :
    Lawful s e := by
  have after := inv_advance h careful
  constructor
  case credited =>
    intro x hx
    obtain ⟨row, hrow, hid, hmemo, hmemoType, hstatus⟩ := after.credited x hx
    refine ⟨row, hrow, hid, hmemo, hmemoType, ?_⟩
    rw [mapToSep31Status_of_some hstatus]
    decide
  case exclusive => simp [after.unrefunded]
  case once => simp [after.unrefunded]
  case recorded => simp [after.unrefunded]
  case settled =>
    intro row payments hexamines hright
    obtain ⟨p, hfind⟩ := exists_candidate hright
    have hvalid := careful.first row payments hexamines hright p hfind
    obtain ⟨answer, rest, rfl, htodo, hpayments, hpending⟩ := examines_eq_some hexamines
    rw [advance_check answer htodo]
    have move := checkRow_move { s with todo := rest } row answer
    generalize checkRow { s with todo := rest } row answer = s' at move
    cases move with
    | idle unrefunded =>
      have hmatch : matchPaymentByMemo row payments = some (p, true) := by
        rw [matchPaymentByMemo, hfind, Option.map_some, hvalid]
      exact absurd (unrefunded hpending payments _ hpayments hmatch).1.symm Bool.false_ne_true
    | credit => exact ⟨_, List.mem_append_right _ List.mem_cons_self⟩
    | refund pending shown candidate invalid =>
      cases hpayments.symm.trans shown
      cases hfind.symm.trans candidate
      exact absurd (hvalid.symm.trans invalid) (by decide)
    | complete pending => exact absurd (hpending.symm.trans pending) (by decide)

/-- A refund that was carried out is forgotten when the transfer is moved to error. -/
theorem refundFailed_of_lawful {s : State} {e : Event} (lawful : Lawful s e)
    (h : (refunds s e).isSome = true) : e.refundFailed = true := by
  obtain ⟨p, hp⟩ := Option.isSome_iff_exists.1 h
  obtain ⟨row, payments, hexamines, hfind, hinvalid, hfresh⟩ := refunds_eq_some.1 hp
  obtain ⟨answer, rest, rfl, htodo, hpayments, hpending⟩ := examines_eq_some hexamines
  by_contra hsent
  have hadvance : advance s (.check answer) =
      { refundMismatchedPayment { s with todo := rest } row p answer.refund with
        table := updateSep31Status
          (refundMismatchedPayment { s with todo := rest } row p answer.refund).table row.id
          .error row.metadata } := by
    rw [advance_check answer htodo]
    simp [checkRow, hpending, hpayments, matchPaymentByMemo, hfind, hinvalid, hfresh]
  have hrefunded : (row.id, p.payment) ∈ (advance s (.check answer)).refunds := by
    rw [hadvance]
    cases houtcome : answer.refund with
    | failed => exact absurd (by rw [Event.refundFailed, houtcome]; rfl) hsent
    | unacknowledged => exact List.mem_append_right _ List.mem_cons_self
    | sent hash recorded => exact List.mem_append_right _ List.mem_cons_self
  obtain ⟨row', hrow', hid, hrecorded, -⟩ := lawful.recorded _ hrefunded
  rw [hadvance] at hrow'
  rw [metadata_of_mem hrow' hid] at hrecorded
  exact Bool.false_ne_true (hfresh.symm.trans hrecorded)

theorem careful_of_lawful {s : State} {e : Event} (h : Inv s) (lawful : Lawful s e) :
    Careful s e := by
  refine ⟨refundFailed_of_lawful lawful, ?_⟩
  intro row payments hexamines hright p hfind
  obtain ⟨payment, hcredit⟩ := lawful.settled row payments hexamines hright
  obtain ⟨answer, rest, rfl, htodo, hpayments, hpending⟩ := examines_eq_some hexamines
  -- The transfer that is checked has not been credited before.
  have hnew : (row.id, payment) ∉ s.credits := by
    intro hold
    obtain ⟨row', hrow', hid, -, -, hstatus⟩ := h.credited _ hold
    have hrow : row ∈ s.table.rows := h.current row (htodo ▸ List.mem_cons_self)
    rw [s.table.eq_of_mem hrow' hrow hid] at hstatus
    exact absurd (hpending.symm.trans (mapToSep31Status_of_some hstatus)) (by decide)
  rw [advance_check answer htodo] at hcredit
  have move := checkRow_move { s with todo := rest } row answer
  generalize checkRow { s with todo := rest } row answer = s' at move hcredit
  cases move with
  | idle => exact absurd hcredit hnew
  | credit pending shown candidate valid =>
    cases hpayments.symm.trans shown
    cases hfind.symm.trans candidate
    exact valid
  | refund =>
    rw [credits_refundMismatchedPayment] at hcredit
    exact absurd hcredit hnew
  | complete => exact absurd hcredit hnew

theorem inv_start (table : Table) : Inv (start table) where
  unrefunded := rfl
  current := by simp [start]
  each := List.nodup_nil
  credited := by simp [start]

/-- Every incoming payment is accounted for in a run exactly when no refund of the run is
carried out and no payment of another memo stands before one that is waited for. -/
theorem sep31_accounting_iff (table : Table) (es : List Event) :
    Runs.Every advance Lawful (start table) es ↔ Runs.Every advance Careful (start table) es := by
  constructor
  · apply Runs.Every.imp_of_inv Inv
    · exact fun s e h lawful => inv_advance h (careful_of_lawful h lawful)
    · exact fun s e h lawful => careful_of_lawful h lawful
    · exact inv_start table
  · apply Runs.Every.imp_of_inv Inv
    · exact fun s e h careful => inv_advance h careful
    · exact fun s e h careful => lawful_of_careful h careful
    · exact inv_start table

/-- A transfer of 25 USDC with the memo, and the payment that its sender makes. -/
def sampleTransfer (id : ℕ) (memo : String) (memo_ne : memo ≠ "") : Row where
  id := id
  status := .pending
  amount := 250000000
  metadata :=
    { status := none, memo := memo, memoType := some "text", assetCode := "USDC",
      assetIssuer := some "GISSUER", refunded := false, refund := none, memo_ne := memo_ne }
  inRange := by decide

def samplePayment (operationId : ℕ) (memo : String) : StellarPaymentRecord where
  payment :=
    { operationId := operationId, source := "GSENDER", amount := 250000000, assetCode := "USDC",
      assetIssuer := some "GISSUER", transactionHash := "tx" ++ memo, memoType := some "text",
      memo := some memo }
  loaded := true

def sampleTransfers : Table where
  rows := [sampleTransfer 1 "first" (by decide), sampleTransfer 2 "second" (by decide)]
  nodup := by decide

def sampleAnswer : Answer where
  payments := some [samplePayment 2 "second", samplePayment 1 "first"]
  refund := .sent "txrefund" true

/-- The payment of the second transfer is refunded for the first one and credited. -/
theorem payment_refunded_and_credited :
    ¬ ∀ table es, Runs.Every advance Lawful (start table) es := by
  intro h
  have every := h sampleTransfers
    [.select sampleTransfers.rows, .check sampleAnswer, .check sampleAnswer]
  have last : Lawful _ (.check sampleAnswer) :=
    every.of_append [.select sampleTransfers.rows, .check sampleAnswer]
  refine last.exclusive (2, (samplePayment 2 "second").payment) ?_
    (1, (samplePayment 2 "second").payment) ?_ rfl
  · decide +kernel
  · decide +kernel

end MobileMoney.Sep31
