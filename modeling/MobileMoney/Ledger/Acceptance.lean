import MobileMoney.Ledger.Conservation
import MobileMoney.Ledger.Conversion

/-!
# When a converted posting is accepted

The database rounds each leg of a posting on its own. A total splits exactly into two
rounded parts when the rounding remainders of the parts, with what the binary sum or
difference has lost, stay within half a unit; otherwise the posting is refused although
it is balanced to seven places and more.
-/

namespace MobileMoney.Ledger

open Binary64 Checked

/-! ## One leg -/

/-- The decimal text of an amount, in units of `10 ^ (-7)`; NaN and infinities are written
as NULL and count as zero. -/
def written (x : Number) : ℚ := (x.value?.map Number.decimal).getD 0 * 10 ^ 7

/-- The units the database stores for an amount, if they fit. -/
def units (x : Number) : ℤ := Decimal.roundHalfAway (written x)

/-- What rounding takes away from the written amount. -/
def remainder (x : Number) : ℚ := written x - units x

theorem units_pos_iff {x : Number} : 0 < units x ↔ 1 / 2 ≤ written x :=
  Decimal.roundHalfAway_pos_iff

/-- Only a positive finite number is stored as a positive number of units. -/
theorem finite_of_units_pos {x : Number} (h : 0 < units x) :
    ∃ y : Double, x = .finite y ∧ 0 < y.1 := by
  rw [units_pos_iff] at h
  cases x with
  | nan => norm_num [written, Number.value?] at h
  | infinite => norm_num [written, Number.value?] at h
  | finite y =>
    refine ⟨y, rfl, Number.pos_of_decimal_pos ?_⟩
    have hdef : written (.finite y) = Number.decimal y.1 * 10 ^ 7 := rfl
    rw [hdef] at h
    linarith

theorem units_of_not_finite {x : Number} (h : x.value? = none) : units x = 0 := by
  simp [units, written, h]

theorem columnAmount_none : columnAmount none = .ok 0 := rfl

theorem columnAmount_eq_ok {x : Number} {n : ℤ} (hn : 0 < n) :
    columnAmount (some x) = .ok n ↔ units x = n ∧ amountType.Fits n := by
  have hnull : ∀ y : Number, y.value? = none → columnAmount (some y) = .ok 0 := by
    intro y hy
    simp [columnAmount, jsonAmount, hy]
  cases x with
  | nan =>
    rw [hnull _ rfl, units_of_not_finite rfl, Except.ok.injEq]
    omega
  | infinite =>
    rw [hnull _ rfl, units_of_not_finite rfl, Except.ok.injEq]
    omega
  | finite x =>
    have hdef : columnAmount (some (.finite x)) =
        orFail (amountType.store (units (.finite x))) .numericOverflow := rfl
    rw [hdef, orFail_eq_ok, Decimal.Format.store_eq_some]

/-! ## The shape of the entries -/

/-- The accounts that the postings use and the migration inserts. -/
def seededAccounts : List String := ["1100", "2000", "4100", "4200"]

structure IsDebit (x : Number) (entry : LedgerEntry) : Prop where
  debit : entry.debitAmount = some x
  credit : entry.creditAmount = none
  seeded : entry.accountCode ∈ seededAccounts

structure IsCredit (x : Number) (entry : LedgerEntry) : Prop where
  debit : entry.debitAmount = none
  credit : entry.creditAmount = some x
  seeded : entry.accountCode ∈ seededAccounts

/-- The seeded accounts are there and active, and nothing but the amounts can be wrong. -/
structure Ready (session : Session) : Prop where
  active : ∀ code ∈ seededAccounts, ∃ account,
    session.accounts code = some account ∧ account.isActive = true
  present : ∀ code ∈ seededAccounts, ∃ account, session.accountsAtInsert code = some account
  admits : ∀ row, session.refuses row = false

/-- The entries pass the client's check, and every ready database posts them with equal
debits and credits. -/
def Accepted (entries : List LedgerEntry) : Prop :=
  validateLedgerEntries entries = .ok () ∧ ∀ session args, Ready session →
    ∃ rows, Sql.postTransaction session args entries = .ok rows ∧ Balanced rows

def seededSession : Session :=
  { accounts := fun code => some ⟨code, true⟩
    accountsAtInsert := fun code => some ⟨code, true⟩
    refuses := fun _ => false
    hasSettlement := true
    currentDate := "2026-01-01"
    commit := .done }

theorem seededSession_ready : Ready seededSession :=
  ⟨fun code _ => ⟨⟨code, true⟩, rfl, rfl⟩, fun code _ => ⟨⟨code, true⟩, rfl⟩, fun _ => rfl⟩

/-! ## The client's check -/

@[simp] theorem orZero_none : orZero none = .zero := rfl

@[simp] theorem orZero_finite (x : Double) : orZero (some (.finite x)) = .finite x := rfl

@[simp] theorem zero_lt_finite (x : Double) : Number.zero.lt (.finite x) = decide (0 < x.1) :=
  rfl

@[simp] theorem zero_lt_zero : Number.zero.lt .zero = false := rfl

theorem addTotals_debit {t : Double} {entry : LedgerEntry} (d : Double) (c : Number)
    (index : ℕ) (totals : Number × Number) (h : IsDebit (.finite t) entry) :
    addTotals (.finite d, c) index entry = .ok totals ↔
      0 < t.1 ∧ ((Number.finite d).add (.finite t), c.add .zero) = totals := by
  simp only [addTotals, h.debit, h.credit, bind_eq_ok, require_eq_ok, pure_eq_ok, exists_const,
    orZero_none, orZero_finite, zero_lt_finite, zero_lt_zero]
  simp

theorem addTotals_credit {x d : Double} {c : Number} {index : ℕ} {entry : LedgerEntry}
    {totals : Number × Number} (h : IsCredit (.finite x) entry) :
    addTotals (.finite d, c) index entry = .ok totals ↔
      0 < x.1 ∧ (Number.finite d, c.add (.finite x)) = totals := by
  simp only [addTotals, h.debit, h.credit, bind_eq_ok, require_eq_ok, pure_eq_ok, exists_const,
    orZero_none, orZero_finite, zero_lt_finite, zero_lt_zero, Number.add_zero]
  simp

theorem sumEntries_credits {xs : List Double} {rest : List LedgerEntry} {d : Double}
    {c : Number} {index : ℕ} {totals : Number × Number}
    (h : List.Forall₂ (fun x entry => IsCredit (.finite x) entry) xs rest) :
    sumEntries (.finite d, c) index rest = .ok totals ↔
      (∀ x ∈ xs, 0 < x.1) ∧
        (Number.finite d, xs.foldl (fun sum x => sum.add (.finite x)) c) = totals := by
  induction h generalizing c index with
  | nil => simp [sumEntries]
  | cons hx _ ih =>
    simp only [sumEntries, bind_eq_ok, addTotals_credit hx]
    constructor
    · intro hsum
      obtain ⟨_, ⟨hpos, rfl⟩, hrest⟩ := hsum
      obtain ⟨hall, heq⟩ := ih.1 hrest
      exact ⟨List.forall_mem_cons.2 ⟨hpos, hall⟩, heq⟩
    · intro hsum
      obtain ⟨hall, heq⟩ := hsum
      obtain ⟨hpos, hall⟩ := List.forall_mem_cons.1 hall
      exact ⟨_, ⟨hpos, rfl⟩, ih.2 ⟨hall, heq⟩⟩

/-- The float sum of the credit legs agrees with the debit leg up to the tolerance. -/
def Reconciles (total : Number) (parts : List Number) : Bool :=
  !ledgerBalanceTolerance.lt (total.sub (parts.foldl Number.add .zero)).abs

theorem exists_tolerance : ∃ tolerance : Double, ledgerBalanceTolerance = .finite tolerance ∧
    |tolerance.1 - 1 / 10 ^ 7| ≤ 2 ^ (-77 : ℤ) := by
  apply Number.exists_ofRat (k := -23) (by norm_num) (by norm_num)
  rw [abs_of_pos (by norm_num)]
  norm_num

theorem le_tolerance_eq_false {t : Double} :
    (Number.finite t).le ledgerBalanceTolerance = false ↔
      ledgerBalanceTolerance.lt (.finite t) = true := by
  obtain ⟨tolerance, htolerance, -⟩ := exists_tolerance
  rw [htolerance, Number.le_finite, Number.lt_finite]
  simp

theorem validateLedgerEntries_eq_ok {t : Double} {xs : List Double} {entry : LedgerEntry}
    {rest : List LedgerEntry} (hdebit : IsDebit (.finite t) entry) (hxs : xs ≠ [])
    (hcredits : List.Forall₂ (fun x entry => IsCredit (.finite x) entry) xs rest) :
    validateLedgerEntries (entry :: rest) = .ok () ↔
      0 < t.1 ∧ (∀ x ∈ xs, 0 < x.1) ∧
        Reconciles (.finite t) (xs.map Number.finite) = true ∧
        ledgerBalanceTolerance.lt (.finite t) = true := by
  have hlength : 2 ≤ (entry :: rest).length := by
    have hsame := hcredits.length_eq
    have hpos := List.length_pos_iff.2 hxs
    simp only [List.length_cons]
    omega
  have hfirst : ∀ totals, addTotals (.zero, .zero) 0 entry = .ok totals ↔
      0 < t.1 ∧ (Number.finite t, Number.zero) = totals := by
    intro totals
    have h := addTotals_debit ⟨0, isDouble_zero⟩ .zero 0 totals hdebit
    have hzero : Number.zero.add .zero = .zero := Number.add_zero _
    rwa [← Number.zero, Number.zero_add_finite, hzero] at h
  have hsum : ∀ totals, sumEntries (.zero, .zero) 0 (entry :: rest) = .ok totals ↔
      0 < t.1 ∧ (∀ x ∈ xs, 0 < x.1) ∧
        (Number.finite t, (xs.map Number.finite).foldl Number.add .zero) = totals := by
    intro totals
    simp only [sumEntries, bind_eq_ok, hfirst]
    constructor
    · rintro ⟨_, ⟨hpos, rfl⟩, hrest⟩
      obtain ⟨hall, heq⟩ := (sumEntries_credits hcredits).1 hrest
      exact ⟨hpos, hall, by rwa [List.foldl_map]⟩
    · rintro ⟨hpos, hall, heq⟩
      rw [List.foldl_map] at heq
      exact ⟨_, ⟨hpos, rfl⟩, (sumEntries_credits hcredits).2 ⟨hall, heq⟩⟩
  simp only [validateLedgerEntries, bind_eq_ok, require_eq_ok, exists_const, hsum]
  unfold Reconciles
  constructor
  · rintro ⟨-, _, ⟨hpos, hall, rfl⟩, hagree, hle⟩
    exact ⟨hpos, hall, by rw [hagree]; rfl, le_tolerance_eq_false.1 hle⟩
  · rintro ⟨hpos, hall, hagree, hlt⟩
    refine ⟨hlength, _, ⟨hpos, hall, rfl⟩, ?_, le_tolerance_eq_false.2 hlt⟩
    simpa using hagree

theorem tolerance_lt_abs_eq_false {x : ℚ} (hx : |x| ≤ 2 ^ (-25 : ℤ) + 2 ^ (-24 : ℤ)) :
    ledgerBalanceTolerance.lt (Number.ofRat x).abs = false := by
  obtain ⟨tolerance, htolerance, herror⟩ := exists_tolerance
  have hlt : |x| < 2 ^ (-23 : ℤ) := lt_of_le_of_lt hx (by norm_num)
  obtain ⟨y, hy, hclose⟩ := Number.exists_ofRat (by norm_num) (by norm_num) hlt
  have hsub := abs_sub_abs_le_abs_sub y.1 x
  have hlow := (abs_le.1 herror).1
  rw [htolerance, hy, Number.abs, Number.lt_finite]
  simp only [decide_eq_false_iff_not, not_lt]
  norm_num at hx hclose hlow ⊢
  linarith

/-- A total that is the float sum of its parts reconciles. -/
theorem reconciles_of_sum {t : Double} {parts : List Number}
    (h : parts.foldl Number.add .zero = .finite t) : Reconciles (.finite t) parts = true := by
  have hzero : Number.ofRat 0 = .zero := Number.ofRat_of_isDouble isDouble_zero
  have hcheck : ledgerBalanceTolerance.lt Number.zero.abs = false := by decide +kernel
  unfold Reconciles
  rw [h, Number.sub_finite, sub_self, hzero, hcheck]
  rfl

/-- Below `2 ^ 29` the two roundings of a difference and of its sum stay under the
tolerance. -/
theorem reconciles_of_difference {t p f : Double} (ht : t.1 < 2 ^ 29)
    (hp : Number.ofRat (t.1 - f.1) = .finite p) (hppos : 0 < p.1) (hfpos : 0 < f.1) :
    Reconciles (.finite t) [.finite p, .finite f] = true := by
  have hround := Number.ofRat_eq_finite hp
  have hpos : 0 < t.1 - f.1 := by
    by_contra h
    have := round_nonpos (not_lt.1 h)
    linarith
  have hdifference : |t.1 - f.1| < 2 ^ (29 : ℤ) := by
    rw [abs_of_pos hpos]
    norm_num
    linarith
  have hperror := round_error_of_lt (by norm_num) hdifference
  rw [← hround] at hperror
  have hp' := abs_le.1 hperror
  have hsum : |p.1 + f.1| < 2 ^ (30 : ℤ) := by
    rw [abs_of_pos (by linarith)]
    norm_num at hp' ⊢
    linarith
  obtain ⟨q, hq, hqerror⟩ := Number.exists_ofRat (by norm_num) (by norm_num) hsum
  have hq' := abs_le.1 hqerror
  have hclose : |t.1 - q.1| ≤ 2 ^ (-25 : ℤ) + 2 ^ (-24 : ℤ) := by
    rw [abs_le]
    norm_num at hp' hq' ⊢
    constructor <;> linarith
  have hparts : [Number.finite p, .finite f].foldl Number.add .zero = .finite q := by
    rw [List.foldl_cons, List.foldl_cons, List.foldl_nil, Number.zero_add_finite,
      Number.add_finite, hq]
  unfold Reconciles
  rw [hparts, Number.sub_finite, tolerance_lt_abs_eq_false hclose]
  rfl

/-! ## The database's check -/

theorem fits_of_le {m n : ℤ} (hm : 0 ≤ m) (hle : m ≤ n) (hn : amountType.Fits n) :
    amountType.Fits m := by
  refine amountType.fits_mono ?_ hn
  rwa [abs_of_nonneg hm, abs_of_nonneg (hm.trans hle)]

/-- Credits of positive units are summed as long as the total fits. -/
theorem accumulate_credits {session : Session} (ready : Ready session) {xs : List Number}
    {rest : List LedgerEntry} (h : List.Forall₂ IsCredit xs rest) {d c : ℤ} (hc : 0 ≤ c)
    (hd : amountType.Fits d) (hpos : ∀ x ∈ xs, 0 < units x)
    (hfits : amountType.Fits (c + (xs.map units).sum)) :
    accumulate session (d, c) rest = .ok (d, c + (xs.map units).sum) := by
  induction h generalizing c with
  | nil => simp [accumulate]
  | @cons x entry xs rest hx _ ih =>
    obtain ⟨hxpos, hpos⟩ := List.forall_mem_cons.1 hpos
    have hsum : 0 ≤ (xs.map units).sum := by
      apply List.sum_nonneg
      intro n hn
      obtain ⟨y, hy, rfl⟩ := List.mem_map.1 hn
      exact (hpos y hy).le
    rw [List.map_cons, List.sum_cons] at hfits ⊢
    have hcolumn : columnAmount (some x) = .ok (units x) := by
      rw [columnAmount_eq_ok hxpos]
      exact ⟨rfl, fits_of_le hxpos.le (by omega) hfits⟩
    obtain ⟨account, haccount, hactive⟩ := ready.active _ hx.seeded
    have hrest := ih (c := c + units x) (by omega) hpos (by rwa [add_assoc])
    simp only [accumulate, assign, bind_eq_ok, require_eq_ok, orFail_eq_ok, exists_const,
      Decimal.Format.store_eq_some]
    refine ⟨by rw [haccount]; exact hactive, 0, by rw [hx.debit]; rfl, d, ⟨by omega, hd⟩,
      units x, by rw [hx.credit]; exact hcolumn, c + units x, ⟨rfl, ?_⟩, ?_⟩
    · exact fits_of_le (by omega) (by omega) hfits
    · rw [hrest, add_assoc]

theorem exists_insertEntry {session : Session} (ready : Ready session) (args : PostArgs)
    {entry : LedgerEntry} {m n : ℤ} (hcode : entry.accountCode ∈ seededAccounts)
    (hdebit : columnAmount entry.debitAmount = .ok m)
    (hcredit : columnAmount entry.creditAmount = .ok n)
    (hside : (0 < m ∧ n = 0) ∨ (0 < n ∧ m = 0)) :
    ∃ row, insertEntry session args entry = .ok row := by
  obtain ⟨account, haccount⟩ := ready.present _ hcode
  simp only [insertEntry, bind_eq_ok, require_eq_ok, orFail_eq_ok, exists_const, pure_eq_ok]
  refine ⟨_, account, haccount, m, hdebit, n, hcredit, ?_, ready.admits _, rfl⟩
  simp only [rowChecks, Bool.and_eq_true, Bool.or_eq_true, decide_eq_true_eq, beq_iff_eq]
  omega

theorem exists_insert_credits {session : Session} (ready : Ready session) (args : PostArgs)
    {xs : List Number} {rest : List LedgerEntry} (h : List.Forall₂ IsCredit xs rest)
    (hcolumns : ∀ x ∈ xs, 0 < units x ∧ amountType.Fits (units x)) :
    ∃ rows, rest.mapM (insertEntry session args) = .ok rows := by
  induction h with
  | nil => exact ⟨[], rfl⟩
  | @cons x entry xs rest hx _ ih =>
    obtain ⟨⟨hpos, hfits⟩, hcolumns⟩ := List.forall_mem_cons.1 hcolumns
    have hcolumn : columnAmount (some x) = .ok (units x) :=
      (columnAmount_eq_ok hpos).2 ⟨rfl, hfits⟩
    obtain ⟨row, hrow⟩ := exists_insertEntry ready args hx.seeded
      (by rw [hx.debit]; exact columnAmount_none) (by rw [hx.credit]; exact hcolumn)
      (.inr ⟨hpos, rfl⟩)
    obtain ⟨rows, hrows⟩ := ih hcolumns
    exact ⟨row :: rows, mapM_eq_ok.2 (.cons hrow (mapM_eq_ok.1 hrows))⟩

/-- The rows of credit entries carry their units on the credit side. -/
theorem rows_of_credits {args : PostArgs} {xs : List Number} {rest : List LedgerEntry}
    (h : List.Forall₂ IsCredit xs rest) {rows : List LedgerRow}
    (hrows : List.Forall₂ (Inserted args) rest rows) :
    (∀ x ∈ xs, 0 < units x) ∧ debits rows = 0 ∧ credits rows = (xs.map units).sum := by
  induction h generalizing rows with
  | nil =>
    cases hrows
    simp [debits, credits]
  | @cons x entry xs rest hx _ ih =>
    cases hrows with
    | @cons _ row _ rows hrow hrows =>
      obtain ⟨hpos, hdebits, hcredits⟩ := ih hrows
      have hzero : row.debitAmount = 0 := by
        have h := hrow.debit
        rw [hx.debit, columnAmount_none, Except.ok.injEq] at h
        exact h.symm
      have hrowpos : 0 < row.creditAmount := by
        have hside := hrow.oneSided
        unfold OneSided at hside
        omega
      have hunits : units x = row.creditAmount := by
        have h := hrow.credit
        rw [hx.credit, columnAmount_eq_ok hrowpos] at h
        exact h.1
      refine ⟨List.forall_mem_cons.2 ⟨by omega, hpos⟩, ?_, ?_⟩
      · simp only [debits, List.map_cons, List.sum_cons] at hdebits ⊢
        omega
      · simp only [credits, List.map_cons, List.sum_cons] at hcredits ⊢
        omega

/-- A debit with credits is posted exactly when every leg has a positive number of units,
the units of the parts sum to those of the total, and the total fits. -/
theorem posted_iff {t : Number} {xs : List Number} {entry : LedgerEntry}
    {rest : List LedgerEntry} (hdebit : IsDebit t entry) (hxs : xs ≠ [])
    (hcredits : List.Forall₂ IsCredit xs rest) :
    (∀ session args, Ready session → ∃ rows,
      Sql.postTransaction session args (entry :: rest) = .ok rows ∧ Balanced rows) ↔
      (∀ x ∈ xs, 0 < units x) ∧ 0 < units t ∧ units t = (xs.map units).sum ∧
        amountType.Fits (units t) := by
  constructor
  · intro hall
    obtain ⟨rows, hpost, hbalanced⟩ := hall seededSession ⟨"", "", none, none⟩ seededSession_ready
    simp only [Sql.postTransaction, bind_eq_ok, require_eq_ok, exists_const] at hpost
    obtain ⟨-, -, _, -, -, -, hrows⟩ := hpost
    have inserted := (mapM_eq_ok.1 hrows).imp fun _ _ => insertEntry_eq_ok
    cases inserted with
    | @cons _ row _ rows hrow htail =>
      obtain ⟨hpos, hzero, hsum⟩ := rows_of_credits hcredits htail
      have hcredit : row.creditAmount = 0 := by
        have h := hrow.credit
        rw [hdebit.credit, columnAmount_none, Except.ok.injEq] at h
        exact h.symm
      have hrowpos : 0 < row.debitAmount := by
        have hside := hrow.oneSided
        unfold OneSided at hside
        omega
      have hcolumn := hrow.debit
      rw [hdebit.debit, columnAmount_eq_ok hrowpos] at hcolumn
      obtain ⟨hunits, hfits⟩ := hcolumn
      unfold Balanced at hbalanced
      simp only [debits, credits, List.map_cons, List.sum_cons] at hbalanced hzero hsum
      exact ⟨hpos, by omega, by omega, by rwa [hunits]⟩
  · rintro ⟨hpos, htpos, hsum, hfits⟩ session args ready
    have hparts : ∀ x ∈ xs, 0 < units x ∧ amountType.Fits (units x) := by
      intro x hx
      have hle : units x ≤ (xs.map units).sum := by
        apply List.single_le_sum _ _ (List.mem_map_of_mem hx)
        intro n hn
        obtain ⟨y, hy, rfl⟩ := List.mem_map.1 hn
        exact (hpos y hy).le
      exact ⟨hpos x hx, fits_of_le (hpos x hx).le (by omega) hfits⟩
    have hcolumn : columnAmount (some t) = .ok (units t) :=
      (columnAmount_eq_ok htpos).2 ⟨rfl, hfits⟩
    have hzero : amountType.Fits 0 := fits_of_le le_rfl htpos.le hfits
    obtain ⟨account, haccount, hactive⟩ := ready.active _ hdebit.seeded
    have haccumulate : accumulate session (0, 0) (entry :: rest) = .ok (units t, units t) := by
      have hrest := accumulate_credits ready hcredits le_rfl hfits hpos (by rwa [zero_add, ← hsum])
      simp only [accumulate, assign, bind_eq_ok, require_eq_ok, orFail_eq_ok, exists_const,
        Decimal.Format.store_eq_some]
      refine ⟨by rw [haccount]; exact hactive, units t, by rw [hdebit.debit]; exact hcolumn,
        units t, ⟨zero_add _, hfits⟩, 0, by rw [hdebit.credit]; rfl, 0, ⟨zero_add _, hzero⟩, ?_⟩
      rw [hrest, zero_add, ← hsum]
    obtain ⟨row, hrow⟩ := exists_insertEntry ready args hdebit.seeded
      (by rw [hdebit.debit]; exact hcolumn) (by rw [hdebit.credit]; exact columnAmount_none)
      (.inl ⟨htpos, rfl⟩)
    obtain ⟨rows, hrows⟩ := exists_insert_credits ready args hcredits hparts
    have hlength : 2 ≤ (entry :: rest).length := by
      have hsame := hcredits.length_eq
      have hlen := List.length_pos_iff.2 hxs
      simp only [List.length_cons]
      omega
    have hpost : Sql.postTransaction session args (entry :: rest) = .ok (row :: rows) := by
      simp only [Sql.postTransaction, bind_eq_ok, require_eq_ok, exists_const]
      exact ⟨by simp, hlength, _, haccumulate, rfl, htpos.ne',
        mapM_eq_ok.2 (.cons hrow (mapM_eq_ok.1 hrows))⟩
    exact ⟨_, hpost, (sql_postTransaction_eq_ok hpost).balanced⟩

/-! ## Two and three legs -/

/-- One leg that the database stores as a positive amount. -/
def Unsplit (total : Number) : Prop :=
  1 / 2 ≤ written total ∧ written total < 10 ^ 20 - 1 / 2 ∧
    ledgerBalanceTolerance.lt total = true

/-- The remainders of the parts, with the difference between the written total and the
written parts, stay within half a unit. -/
def Splits (total part fee : Number) : Prop :=
  let drift := remainder part + remainder fee + (written total - written part - written fee)
  1 / 2 ≤ written part ∧ 1 / 2 ≤ written fee ∧ written total < 10 ^ 20 - 1 / 2 ∧
    ledgerBalanceTolerance.lt total = true ∧ -(1 / 2) ≤ drift ∧ drift < 1 / 2

instance (total : Number) : Decidable (Unsplit total) := inferInstanceAs (Decidable (_ ∧ _))

instance (total part fee : Number) : Decidable (Splits total part fee) :=
  inferInstanceAs (Decidable (_ ∧ _ ∧ _ ∧ _ ∧ _ ∧ _))

theorem fits_units_iff {x : Number} (hpos : 0 < units x) :
    amountType.Fits (units x) ↔ written x < 10 ^ 20 - 1 / 2 := by
  have hwritten : 0 ≤ written x := by
    have := units_pos_iff.1 hpos
    linarith
  have hlt := Decimal.roundHalfAway_lt_iff hwritten (n := 10 ^ 20)
  push_cast at hlt
  unfold Decimal.Format.Fits
  rw [abs_of_pos hpos]
  exact hlt

theorem units_eq_add_iff {total part fee : Number} (hpart : 0 < units part)
    (hfee : 0 < units fee) :
    units total = units part + units fee ↔
      -(1 / 2) ≤ remainder part + remainder fee + (written total - written part - written fee) ∧
      remainder part + remainder fee + (written total - written part - written fee) < 1 / 2 := by
  have hdrift : remainder part + remainder fee + (written total - written part - written fee) =
      written total - (units part + units fee : ℤ) := by
    unfold remainder
    push_cast
    ring
  have hpart' : (1 : ℚ) ≤ units part := by exact_mod_cast hpart
  have hfee' : (1 : ℚ) ≤ units fee := by exact_mod_cast hfee
  rw [hdrift]
  constructor
  · intro heq
    have hwritten : 0 ≤ written total := by
      have := units_pos_iff.1 (by omega : 0 < units total)
      linarith
    obtain ⟨hlow, hhigh⟩ := (Decimal.roundHalfAway_eq_iff hwritten).1 heq
    constructor <;> linarith
  · rintro ⟨hlow, hhigh⟩
    push_cast at hlow hhigh
    have hwritten : 0 ≤ written total := by linarith
    refine (Decimal.roundHalfAway_eq_iff hwritten).2 ?_
    push_cast
    constructor <;> linarith

theorem accepted_pair_iff {t : Number} {debit credit : LedgerEntry} (hdebit : IsDebit t debit)
    (hcredit : IsCredit t credit) : Accepted [debit, credit] ↔ Unsplit t := by
  have hcredits : List.Forall₂ IsCredit [t] [credit] := .cons hcredit .nil
  have hposted := posted_iff hdebit (List.cons_ne_nil _ _) hcredits
  simp only [List.mem_singleton, forall_eq, List.map_cons, List.map_nil, List.sum_singleton,
    true_and] at hposted
  unfold Accepted Unsplit
  rw [hposted, ← units_pos_iff]
  constructor
  · rintro ⟨hvalid, hpos, -, hfits⟩
    obtain ⟨t, rfl, -⟩ := finite_of_units_pos hpos
    rw [validateLedgerEntries_eq_ok hdebit (List.cons_ne_nil t _) (.cons hcredit .nil)] at hvalid
    exact ⟨hpos, (fits_units_iff hpos).1 hfits, hvalid.2.2.2⟩
  · rintro ⟨hpos, hfits, hlt⟩
    obtain ⟨t, rfl, ht⟩ := finite_of_units_pos hpos
    rw [validateLedgerEntries_eq_ok hdebit (List.cons_ne_nil t _) (.cons hcredit .nil)]
    exact ⟨⟨ht, by simpa using ht, reconciles_of_sum (Number.zero_add_finite t), hlt⟩, hpos, hpos,
      (fits_units_iff hpos).2 hfits⟩

theorem units_pos_of_accepted {t p : Number} {debit credit : LedgerEntry}
    (hdebit : IsDebit t debit) (hcredit : IsCredit p credit) (h : Accepted [debit, credit]) :
    0 < units t ∧ 0 < units p := by
  obtain ⟨hparts, ht, -⟩ :=
    (posted_iff hdebit (List.cons_ne_nil p []) (.cons hcredit .nil)).1 h.2
  exact ⟨ht, hparts p List.mem_cons_self⟩

theorem accepted_triple_iff {t p f : Number} {debit credit fee : LedgerEntry}
    (hdebit : IsDebit t debit) (hcredit : IsCredit p credit) (hfee : IsCredit f fee) :
    Accepted [debit, credit, fee] ↔ Splits t p f ∧ Reconciles t [p, f] = true := by
  have hcredits : List.Forall₂ IsCredit [p, f] [credit, fee] := .cons hcredit (.cons hfee .nil)
  have hposted := posted_iff hdebit (List.cons_ne_nil _ _) hcredits
  simp only [List.forall_mem_cons, List.not_mem_nil, false_implies, implies_true, and_true,
    List.map_cons, List.map_nil, List.sum_cons, List.sum_nil, add_zero] at hposted
  unfold Accepted Splits
  dsimp only
  rw [hposted, ← units_pos_iff, ← units_pos_iff]
  constructor
  · rintro ⟨hvalid, ⟨hp, hf⟩, ht, hsum, hfits⟩
    have hdrift := (units_eq_add_iff hp hf).1 hsum
    have hlt := (fits_units_iff ht).1 hfits
    obtain ⟨t, rfl, -⟩ := finite_of_units_pos ht
    obtain ⟨p, rfl, -⟩ := finite_of_units_pos hp
    obtain ⟨f, rfl, -⟩ := finite_of_units_pos hf
    rw [validateLedgerEntries_eq_ok hdebit (List.cons_ne_nil p [f])
      (.cons hcredit (.cons hfee .nil))] at hvalid
    exact ⟨⟨hp, hf, hlt, hvalid.2.2.2, hdrift⟩, hvalid.2.2.1⟩
  · rintro ⟨⟨hp, hf, hlt, htolerance, hdrift⟩, hreconciles⟩
    have hsum := (units_eq_add_iff hp hf).2 hdrift
    have ht : 0 < units t := by omega
    have hfits := (fits_units_iff ht).2 hlt
    refine ⟨?_, ⟨hp, hf⟩, ht, hsum, hfits⟩
    obtain ⟨t, rfl, htpos⟩ := finite_of_units_pos ht
    obtain ⟨p, rfl, hppos⟩ := finite_of_units_pos hp
    obtain ⟨f, rfl, hfpos⟩ := finite_of_units_pos hf
    rw [validateLedgerEntries_eq_ok hdebit (List.cons_ne_nil p [f])
      (.cons hcredit (.cons hfee .nil))]
    exact ⟨htpos, by simp [hppos, hfpos], hreconciles, htolerance⟩

/-! ## Deposits and withdrawals -/

/-- The condition on a deposit: without a fee the converted amount must be storable; with
one it must split into the difference and the fee, and reconcile in floats, which it does
below `2 ^ 29`. -/
def DepositSafe (rateIn rateOut amount fee : Number) : Prop :=
  let total := converted rateIn rateOut amount
  let feePart := converted rateIn rateOut fee
  let part := total.sub feePart
  if Number.zero.lt fee then
    Splits total part feePart ∧
      (total.lt (.ofRat (2 ^ 29)) = true ∨ Reconciles total [part, feePart] = true)
  else Unsplit total

/-- The condition on a withdrawal, whose total is the float sum of its parts. -/
def WithdrawalSafe (rateIn rateOut amount fee : Number) : Prop :=
  let part := converted rateIn rateOut amount
  let feePart := converted rateIn rateOut fee
  if Number.zero.lt fee then Splits (part.add feePart) part feePart else Unsplit part

instance (rateIn rateOut amount fee : Number) :
    Decidable (DepositSafe rateIn rateOut amount fee) :=
  inferInstanceAs (Decidable (ite _ _ _))

instance (rateIn rateOut amount fee : Number) :
    Decidable (WithdrawalSafe rateIn rateOut amount fee) :=
  inferInstanceAs (Decidable (ite _ _ _))

theorem splits_finite {t p f : Number} (h : Splits t p f) : ∃ t' p' f' : Double,
    t = .finite t' ∧ p = .finite p' ∧ f = .finite f' ∧ 0 < p'.1 ∧ 0 < f'.1 := by
  unfold Splits at h
  dsimp only at h
  obtain ⟨hp, hf, -, -, hdrift⟩ := h
  rw [← units_pos_iff] at hp hf
  have ht := (units_eq_add_iff hp hf).2 hdrift
  obtain ⟨t', rfl, -⟩ := finite_of_units_pos (by omega : 0 < units t)
  obtain ⟨p', rfl, hp'⟩ := finite_of_units_pos hp
  obtain ⟨f', rfl, hf'⟩ := finite_of_units_pos hf
  exact ⟨t', p', f', rfl, rfl, rfl, hp', hf'⟩

theorem reconciles_deposit {t f : Number} (h : Splits t (t.sub f) f)
    (hsmall : t.lt (.ofRat (2 ^ 29)) = true) : Reconciles t [t.sub f, f] = true := by
  obtain ⟨t, p, f, rfl, hp, rfl, hppos, hfpos⟩ := splits_finite h
  have hbound : Number.ofRat (2 ^ 29) = .finite ⟨2 ^ 29, by decide +kernel⟩ :=
    Number.ofRat_of_isDouble _
  rw [hbound, Number.lt_finite, decide_eq_true_eq] at hsmall
  rw [hp]
  rw [Number.sub_finite] at hp
  exact reconciles_of_difference hsmall hp hppos hfpos

theorem reconciles_withdrawal {p f : Number} (h : Splits (p.add f) p f) :
    Reconciles (p.add f) [p, f] = true := by
  obtain ⟨t, p, f, ht, rfl, rfl, -⟩ := splits_finite h
  rw [ht]
  apply reconciles_of_sum
  rw [List.foldl_cons, List.foldl_cons, List.foldl_nil, Number.zero_add_finite, ht]

theorem isDebit_debitEntry (code : String) (x : Number) (description : String)
    (h : code ∈ seededAccounts) : IsDebit x (debitEntry code x description) := ⟨rfl, rfl, h⟩

theorem isCredit_creditEntry (code : String) (x : Number) (description : String)
    (h : code ∈ seededAccounts) : IsCredit x (creditEntry code x description) := ⟨rfl, rfl, h⟩

/-- The settlement date does not change the side of an entry. -/
theorem IsCredit.settled {x : Number} {entry : LedgerEntry} (h : IsCredit x entry)
    (settlementDate : Option String) :
    IsCredit x { entry with settlementDate := settlementDate } := ⟨h.1, h.2, h.3⟩

theorem depositEntries_eq_ok {service : CurrencyService} {source : SupportedCurrency}
    {rateIn rateOut amount fee : Number} (settlementDate : String)
    (hin : service.getRates source = some rateIn)
    (hout : service.getRates baseCurrency = some rateOut)
    (hamount : amount.lt .zero = false) (hfee : fee.lt .zero = false) :
    ∃ debit credit feeCredit : LedgerEntry,
      IsDebit (converted rateIn rateOut amount) debit ∧
      IsCredit ((converted rateIn rateOut amount).sub (converted rateIn rateOut fee)) credit ∧
      IsCredit (converted rateIn rateOut fee) feeCredit ∧
      depositEntries service amount fee source settlementDate =
        .ok (if Number.zero.lt fee then [debit, credit, feeCredit] else [debit, credit]) := by
  refine ⟨_, _, _, isDebit_debitEntry "1100" _ "Customer deposit received" (by decide),
    (isCredit_creditEntry "2000" _ "Customer balance credited" (by decide)).settled
      (some settlementDate),
    isCredit_creditEntry "4100" _ "Deposit fee earned" (by decide), ?_⟩
  unfold depositEntries
  rw [convertToBase_eq_ok hin hout hamount, convertToBase_eq_ok hin hout hfee]
  rfl

theorem withdrawalEntries_eq_ok {service : CurrencyService} {source : SupportedCurrency}
    {rateIn rateOut amount fee : Number} (hin : service.getRates source = some rateIn)
    (hout : service.getRates baseCurrency = some rateOut)
    (hamount : amount.lt .zero = false) (hfee : fee.lt .zero = false) :
    ∃ debit credit feeCredit : LedgerEntry,
      IsDebit ((converted rateIn rateOut amount).add (converted rateIn rateOut fee)) debit ∧
      IsCredit (converted rateIn rateOut amount) credit ∧
      IsCredit (converted rateIn rateOut fee) feeCredit ∧
      withdrawalEntries service amount fee source =
        .ok (if Number.zero.lt fee then [debit, credit, feeCredit] else [debit, credit]) := by
  refine ⟨_, _, _, isDebit_debitEntry "2000" _ "Customer balance debited" (by decide),
    isCredit_creditEntry "1100" _ "Withdrawal paid out" (by decide),
    isCredit_creditEntry "4200" _ "Withdrawal fee earned" (by decide), ?_⟩
  unfold withdrawalEntries
  rw [convertToBase_eq_ok hin hout hamount, convertToBase_eq_ok hin hout hfee]
  rfl

/-- At a rate that overflows nothing is stored; at any other a zero fee is zero. -/
theorem mul_zero_or (rate : Number) (amount : Double) {fee : Double} (hfee : fee.1 = 0) :
    (Number.finite fee).mul rate = .zero ∨ units ((Number.finite amount).mul rate) = 0 := by
  cases rate with
  | nan => exact .inr (units_of_not_finite rfl)
  | infinite negative =>
    right
    apply units_of_not_finite
    unfold Number.mul
    dsimp only
    split_ifs <;> rfl
  | finite rate =>
    left
    have hproduct : (Number.finite fee).mul (.finite rate) = .ofRat (fee.1 * rate.1) := rfl
    rw [hproduct, hfee, zero_mul]
    exact Number.ofRat_of_isDouble isDouble_zero

/-- What the database cannot store is neither accepted nor safe. -/
theorem rejected_iff {t : Number} (ht : units t = 0) {P : Prop} (hP : P → 0 < units t) :
    P ↔ Unsplit t := by
  constructor
  · intro h
    have := hP h
    omega
  · intro h
    have := units_pos_iff.2 h.1
    omega

theorem lt_zero_eq_false {x : Double} (h : 0 ≤ x.1) : (Number.finite x).lt .zero = false :=
  decide_eq_false (not_lt.2 h)

theorem eq_zero_of_nonneg {x : Double} (h : 0 ≤ x.1)
    (hpos : ¬ Number.zero.lt (.finite x) = true) : x.1 = 0 := by
  rw [zero_lt_finite, decide_eq_true_eq] at hpos
  exact le_antisymm (not_lt.1 hpos) h

theorem deposit_accepted_iff {service : CurrencyService} {currency : SupportedCurrency}
    {rateIn rateOut amount fee : Double} (settlementDate : String)
    (hin : service.getRates currency = some (.finite rateIn))
    (hout : service.getRates baseCurrency = some (.finite rateOut))
    (hfee : 0 ≤ fee.1) (hamount : fee.1 < amount.1) :
    (∃ entries, depositEntries service (.finite amount) (.finite fee) currency settlementDate =
        .ok entries ∧ Accepted entries) ↔
      DepositSafe (.finite rateIn) (.finite rateOut) (.finite amount) (.finite fee) := by
  have hamount' := lt_zero_eq_false (hfee.trans hamount.le)
  have hfee' := lt_zero_eq_false hfee
  obtain ⟨debit, credit, feeCredit, hdebit, hcredit, hfeeCredit, hentries⟩ :=
    depositEntries_eq_ok settlementDate hin hout hamount' hfee'
  simp only [hentries, Except.ok.injEq, exists_eq_left']
  unfold DepositSafe
  dsimp only
  by_cases hpos : Number.zero.lt (.finite fee) = true
  · rw [if_pos hpos, if_pos hpos, accepted_triple_iff hdebit hcredit hfeeCredit]
    constructor
    · intro h
      exact ⟨h.1, .inr h.2⟩
    · rintro ⟨hsplits, hsmall | hreconciles⟩
      · exact ⟨hsplits, reconciles_deposit hsplits hsmall⟩
      · exact ⟨hsplits, hreconciles⟩
  · rw [if_neg hpos, if_neg hpos]
    have hzero := eq_zero_of_nonneg hfee hpos
    rcases mul_zero_or (Number.div (.finite rateOut) (.finite rateIn)) amount hzero with
      hfeePart | htotal
    · rw [converted, converted, hfeePart, Number.sub_zero] at hcredit
      exact accepted_pair_iff hdebit hcredit
    · exact rejected_iff htotal fun h => (units_pos_of_accepted hdebit hcredit h).1

theorem withdrawal_accepted_iff {service : CurrencyService} {currency : SupportedCurrency}
    {rateIn rateOut amount fee : Double}
    (hin : service.getRates currency = some (.finite rateIn))
    (hout : service.getRates baseCurrency = some (.finite rateOut))
    (hfee : 0 ≤ fee.1) (hamount : fee.1 < amount.1) :
    (∃ entries, withdrawalEntries service (.finite amount) (.finite fee) currency =
        .ok entries ∧ Accepted entries) ↔
      WithdrawalSafe (.finite rateIn) (.finite rateOut) (.finite amount) (.finite fee) := by
  have hamount' := lt_zero_eq_false (hfee.trans hamount.le)
  have hfee' := lt_zero_eq_false hfee
  obtain ⟨debit, credit, feeCredit, hdebit, hcredit, hfeeCredit, hentries⟩ :=
    withdrawalEntries_eq_ok hin hout hamount' hfee'
  simp only [hentries, Except.ok.injEq, exists_eq_left']
  unfold WithdrawalSafe
  dsimp only
  by_cases hpos : Number.zero.lt (.finite fee) = true
  · rw [if_pos hpos, if_pos hpos, accepted_triple_iff hdebit hcredit hfeeCredit]
    exact ⟨fun h => h.1, fun h => ⟨h, reconciles_withdrawal h⟩⟩
  · rw [if_neg hpos, if_neg hpos]
    have hzero := eq_zero_of_nonneg hfee hpos
    rcases mul_zero_or (Number.div (.finite rateOut) (.finite rateIn)) amount hzero with
      hfeePart | htotal
    · rw [converted, converted, hfeePart, Number.add_zero] at hdebit
      exact accepted_pair_iff hdebit hcredit
    · exact rejected_iff htotal fun h => (units_pos_of_accepted hdebit hcredit h).2

/-- At every rate and for every amount above a non-negative fee, the entries of a deposit
and of a withdrawal are accepted exactly under their conditions. -/
theorem conversion_accepted_iff {service : CurrencyService} {currency : SupportedCurrency}
    {rateIn rateOut : Double} (amount fee : Double) (settlementDate : String)
    (hin : service.getRates currency = some (.finite rateIn))
    (hout : service.getRates baseCurrency = some (.finite rateOut))
    (hfee : 0 ≤ fee.1) (hamount : fee.1 < amount.1) :
    ((∃ entries, depositEntries service (.finite amount) (.finite fee) currency settlementDate =
        .ok entries ∧ Accepted entries) ↔
      DepositSafe (.finite rateIn) (.finite rateOut) (.finite amount) (.finite fee)) ∧
    ((∃ entries, withdrawalEntries service (.finite amount) (.finite fee) currency =
        .ok entries ∧ Accepted entries) ↔
      WithdrawalSafe (.finite rateIn) (.finite rateOut) (.finite amount) (.finite fee)) :=
  ⟨deposit_accepted_iff settlementDate hin hout hfee hamount,
    withdrawal_accepted_iff hin hout hfee hamount⟩

/-- A service that has not loaded any rates, so that one dollar is 600 francs. -/
def withoutCache : CurrencyService := ⟨none, false⟩

theorem withoutCache_XAF :
    withoutCache.getRates .XAF = some (.finite ⟨600, by decide +kernel⟩) := by decide +kernel

theorem withoutCache_base :
    withoutCache.getRates baseCurrency = some (.finite ⟨1, by decide +kernel⟩) := by
  decide +kernel

/-- Amounts and fees that are whole tenths of a dollar. -/
theorem tenths_accepted :
    (∃ entries, depositEntries withoutCache (.finite ⟨1200, by decide +kernel⟩)
      (.finite ⟨60, by decide +kernel⟩) .XAF "2026-01-01" = .ok entries ∧ Accepted entries) ∧
    (∃ entries, withdrawalEntries withoutCache (.finite ⟨1200, by decide +kernel⟩)
      (.finite ⟨60, by decide +kernel⟩) .XAF = .ok entries ∧ Accepted entries) := by
  have h := conversion_accepted_iff ⟨1200, by decide +kernel⟩ ⟨60, by decide +kernel⟩
    "2026-01-01" withoutCache_XAF withoutCache_base (by norm_num) (by norm_num)
  exact ⟨h.1.2 (by decide +kernel), h.2.2 (by decide +kernel)⟩

/-- 1000 francs with a fee of 20, or of 25 for a withdrawal, have thirds of a unit in two
legs that round to the same side. -/
theorem thirds_refused :
    (¬ ∃ entries, depositEntries withoutCache (.finite ⟨1000, by decide +kernel⟩)
      (.finite ⟨20, by decide +kernel⟩) .XAF "2026-01-01" = .ok entries ∧ Accepted entries) ∧
    (¬ ∃ entries, withdrawalEntries withoutCache (.finite ⟨1000, by decide +kernel⟩)
      (.finite ⟨25, by decide +kernel⟩) .XAF = .ok entries ∧ Accepted entries) := by
  constructor
  · rw [deposit_accepted_iff "2026-01-01" withoutCache_XAF withoutCache_base (by norm_num)
      (by norm_num)]
    decide +kernel
  · rw [withdrawal_accepted_iff withoutCache_XAF withoutCache_base (by norm_num) (by norm_num)]
    decide +kernel

end MobileMoney.Ledger
