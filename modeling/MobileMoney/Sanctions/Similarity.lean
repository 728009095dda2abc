import Mathlib.Algebra.Order.Field.Rat
import Mathlib.Data.List.TakeDrop
import Mathlib.Tactic.FieldSimp
import Mathlib.Tactic.Linarith
import MobileMoney.Sanctions.Matching

/-!
# The similarity of names

`jaroWinkler` of `services/sanctionService.ts`, and `searchSanctions`, which orders the list by it.
The second string is read through a pointer that skips what is not matched and looks for no end;
that it stops has to be proved, so the loop may be without a result.
-/

namespace MobileMoney.Sanctions

open Binary64

/-! ## Matches -/

/-- The flags of the units that are matched, and how many there are. -/
structure Matching where
  match1 : List Bool
  match2 : List Bool
  count : ℕ
  deriving DecidableEq

/-- How far apart matched units may be. -/
def maxDist (s1 s2 : JsString) : ℤ := (max s1.length s2.length / 2 : ℕ) - 1

/-- The positions in a string of `len2` units that are compared with the one at `i`. -/
def window (dist : ℤ) (len2 i : ℕ) : List ℕ :=
  let start := max 0 ((i : ℤ) - dist)
  let stop := min ((i : ℤ) + dist + 1) len2
  List.range' start.toNat (stop.toNat - start.toNat)

def findMatch (dist : ℤ) (s2 : JsString) (match2 : List Bool) (i : ℕ) (c : UInt16) : Option ℕ :=
  (window dist s2.length i).find? fun j => match2[j]? = some false && s2[j]? = some c

def matchUnit (dist : ℤ) (s2 : JsString) (m : Matching) (unit : UInt16 × ℕ) : Matching :=
  match findMatch dist s2 m.match2 unit.2 unit.1 with
  | some j => ⟨m.match1.set unit.2 true, m.match2.set j true, m.count + 1⟩
  | none => m

def matching (s1 s2 : JsString) : Matching :=
  s1.zipIdx.foldl (matchUnit (maxDist s1 s2) s2)
    ⟨List.replicate s1.length false, List.replicate s2.length false, 0⟩

/-- Matched units of the first string that differ from the unit the pointer comes to. -/
def transpositionsFrom : List (UInt16 × Bool) → List (UInt16 × Bool) → ℕ → Option ℕ
  | [], _, n => some n
  | (c, matched) :: rest, ahead, n =>
    if matched then
      match ahead.dropWhile fun unit => !unit.2 with
      | [] => none
      | (d, _) :: ahead => transpositionsFrom rest ahead (if c = d then n else n + 1)
    else transpositionsFrom rest ahead n

/-- The units that both strings begin with, up to a limit. -/
def commonPrefix : ℕ → JsString → JsString → ℕ
  | n + 1, c :: s1, d :: s2 => if c = d then commonPrefix n s1 s2 + 1 else 0
  | _, _, _ => 0

def jaro (s1 s2 : JsString) (matched transpositions : ℕ) : Number :=
  (((Number.ofRat (matched / s1.length)).add (Number.ofRat (matched / s2.length))).add
    (Number.ofRat ((matched - transpositions / 2) / matched))).div (Number.ofRat 3)

/-- What a common beginning adds. -/
def boost (shared : ℕ) (score : Number) : Number :=
  score.add (((Number.ofRat shared).mul (Number.ofRat (1 / 10))).mul (one.sub score))

def jaroWinkler (s1 s2 : JsString) : Option Number :=
  if s1 = s2 then some one
  else if s1.length = 0 ∨ s2.length = 0 then some Number.zero
  else
    let m := matching s1 s2
    if m.count = 0 then some Number.zero
    else do
      let transpositions ← transpositionsFrom (s1.zip m.match1) (s2.zip m.match2) 0
      return boost (commonPrefix 4 s1 s2) (jaro s1 s2 m.count transpositions)

/-! ## What is matched -/

/-- Before the unit at `i` is looked at. -/
structure Matched (s1 s2 : JsString) (i : ℕ) (m : Matching) : Prop where
  length1 : m.match1.length = s1.length
  length2 : m.match2.length = s2.length
  count1 : m.match1.count true = m.count
  count2 : m.match2.count true = m.count
  ahead : ∀ k, i ≤ k → k < s1.length → m.match1[k]? = some false

theorem count_set_true {flags : List Bool} {k : ℕ} (h : flags[k]? = some false) :
    (flags.set k true).count true = flags.count true + 1 := by
  obtain ⟨hk, hfalse⟩ := List.getElem?_eq_some_iff.1 h
  rw [List.count_set hk, hfalse]
  simp

theorem findMatch_spec {dist : ℤ} {s2 : JsString} {match2 : List Bool} {i j : ℕ} {c : UInt16}
    (h : findMatch dist s2 match2 i c = some j) : match2[j]? = some false := by
  have := List.find?_some h
  simp only [Bool.and_eq_true, decide_eq_true_eq] at this
  exact this.1

theorem Matched.matchUnit {s1 s2 : JsString} {i : ℕ} {m : Matching} (h : Matched s1 s2 i m)
    (hi : i < s1.length) (dist : ℤ) (c : UInt16) :
    Matched s1 s2 (i + 1) (matchUnit dist s2 m (c, i)) := by
  unfold Sanctions.matchUnit
  cases found : findMatch dist s2 m.match2 i c with
  | none => exact { h with ahead := fun k hk hlt => h.ahead k (by omega) hlt }
  | some j =>
    refine ⟨?_, ?_, ?_, ?_, ?_⟩
    · rw [List.length_set, h.length1]
    · rw [List.length_set, h.length2]
    · rw [count_set_true (h.ahead i le_rfl hi), h.count1]
    · rw [count_set_true (findMatch_spec found), h.count2]
    · intro k hk hlt
      rw [List.getElem?_set_ne (by omega)]
      exact h.ahead k (by omega) hlt

theorem Matched.foldl {s1 s2 : JsString} {i : ℕ} {m : Matching} (h : Matched s1 s2 i m)
    (dist : ℤ) (rest : JsString) (hlen : i + rest.length = s1.length) :
    Matched s1 s2 s1.length ((rest.zipIdx i).foldl (Sanctions.matchUnit dist s2) m) := by
  induction rest generalizing i m with
  | nil => rwa [← show i = s1.length from hlen]
  | cons c rest ih =>
    rw [List.length_cons] at hlen
    exact ih (h.matchUnit (by omega) dist c) (by omega)

theorem matched_matching (s1 s2 : JsString) : Matched s1 s2 s1.length (matching s1 s2) := by
  have start : Matched s1 s2 0
      ⟨List.replicate s1.length false, List.replicate s2.length false, 0⟩ :=
    ⟨by simp, by simp, by simp [List.count_replicate], by simp [List.count_replicate],
      fun k _ hk => by simp [hk]⟩
  exact start.foldl _ s1 (Nat.zero_add _)

/-- Nothing is matched just when no unit finds one that is free. -/
theorem count_foldl_eq_iff (dist : ℤ) (s2 : JsString) (units : List (UInt16 × ℕ)) (m : Matching) :
    m.count ≤ (units.foldl (matchUnit dist s2) m).count ∧
      ((units.foldl (matchUnit dist s2) m).count = m.count ↔
        ∀ unit ∈ units, findMatch dist s2 m.match2 unit.2 unit.1 = none) := by
  induction units generalizing m with
  | nil => simp
  | cons unit units ih =>
    rw [List.foldl_cons, List.forall_mem_cons]
    cases found : findMatch dist s2 m.match2 unit.2 unit.1 with
    | none =>
      have same : matchUnit dist s2 m unit = m := by rw [matchUnit, found]
      rw [same]
      simpa using ih m
    | some j =>
      have next : (matchUnit dist s2 m unit).count = m.count + 1 := by rw [matchUnit, found]
      have := (ih (matchUnit dist s2 m unit)).1
      constructor
      · omega
      · constructor
        · intro h
          omega
        · rintro ⟨h, -⟩
          cases h

/-- Units that are alike and near enough to be matched. -/
def Alike (s1 s2 : JsString) : Prop :=
  ∃ i c, s1[i]? = some c ∧ ∃ j ∈ window (maxDist s1 s2) s2.length i, s2[j]? = some c

theorem mem_window_lt {dist : ℤ} {len2 i j : ℕ} (h : j ∈ window dist len2 i) : j < len2 := by
  rw [window, List.mem_range'_1] at h
  omega

theorem matching_count_eq_zero_iff (s1 s2 : JsString) :
    (matching s1 s2).count = 0 ↔ ¬ Alike s1 s2 := by
  rw [matching]
  refine ((count_foldl_eq_iff _ _ _ _).2).trans ?_
  simp only [Alike, findMatch, List.find?_eq_none, not_exists, not_and, Bool.and_eq_true,
    decide_eq_true_eq, Prod.forall]
  constructor
  · intro h i c hc j hj
    have hfree : (List.replicate s2.length false)[j]? = some false := by
      simp [mem_window_lt hj]
    exact h c i (List.mk_mem_zipIdx_iff_getElem?.2 hc) j hj hfree
  · intro h c i hc j hj _
    exact h i c (List.mk_mem_zipIdx_iff_getElem?.1 hc) j hj

/-! ## Transpositions -/

/-- What has been matched, in order. -/
def matchedUnits (units : List (UInt16 × Bool)) : JsString := (units.filter (·.2)).map (·.1)

theorem matchedUnits_dropWhile (units : List (UInt16 × Bool)) :
    matchedUnits (units.dropWhile fun unit => !unit.2) = matchedUnits units := by
  induction units with
  | nil => rfl
  | cons unit units ih =>
    obtain ⟨c, matched⟩ := unit
    cases matched with
    | false => simpa [matchedUnits] using ih
    | true => simp

/-- The pointer stops as long as there are enough matched units ahead of it. -/
theorem transpositionsFrom_spec (units ahead : List (UInt16 × Bool)) (n : ℕ)
    (enough : (matchedUnits units).length ≤ (matchedUnits ahead).length) :
    ∃ k ≤ (matchedUnits units).length, transpositionsFrom units ahead n = some (n + k) ∧
      (k = 0 → matchedUnits units <+: matchedUnits ahead) := by
  induction units generalizing ahead n with
  | nil => exact ⟨0, Nat.zero_le _, rfl, fun _ => List.nil_prefix⟩
  | cons unit units ih =>
    obtain ⟨c, matched⟩ := unit
    cases matched with
    | false => simpa [transpositionsFrom, matchedUnits] using ih ahead n enough
    | true =>
      have first : matchedUnits ((c, true) :: units) = c :: matchedUnits units := by
        simp [matchedUnits]
      rw [first] at enough ⊢
      rw [← matchedUnits_dropWhile ahead] at enough ⊢
      cases hahead : ahead.dropWhile fun unit => !unit.2 with
      | nil =>
        rw [hahead] at enough
        cases enough
      | cons other ahead' =>
        obtain ⟨d, matched⟩ := other
        have stopped : matched = true := by
          have := List.head_dropWhile_not (fun unit : UInt16 × Bool => !unit.2) (l := ahead)
            (by rw [hahead]; exact List.cons_ne_nil _ _)
          simpa [hahead] using this
        subst stopped
        have second : matchedUnits ((d, true) :: ahead') = d :: matchedUnits ahead' := by
          simp [matchedUnits]
        rw [hahead, second, List.length_cons, List.length_cons, Nat.add_le_add_iff_right] at enough
        obtain ⟨k, hk, result, alike⟩ := ih ahead' (if c = d then n else n + 1) enough
        rw [second, List.length_cons]
        by_cases same : c = d
        · refine ⟨k, by omega, ?_, fun h0 => ?_⟩
          · rw [transpositionsFrom, if_pos rfl, hahead]
            simpa [same] using result
          · rw [same]
            exact List.prefix_cons_inj d |>.2 (alike h0)
        · refine ⟨k + 1, by omega, ?_, fun h0 => by omega⟩
          rw [transpositionsFrom, if_pos rfl, hahead]
          simpa [same, Nat.add_assoc, Nat.add_comm 1 k] using result

theorem length_matchedUnits_zip {s : JsString} {flags : List Bool}
    (hlen : flags.length = s.length) :
    (matchedUnits (s.zip flags)).length = flags.count true := by
  induction s generalizing flags with
  | nil =>
    obtain rfl := List.length_eq_zero_iff.1 hlen
    rfl
  | cons c s ih =>
    cases flags with
    | nil => cases hlen
    | cons flag flags =>
      have rest := ih (Nat.succ.inj hlen)
      cases flag with
      | false => simpa [matchedUnits] using rest
      | true => simpa [matchedUnits] using rest

/-- A string all of whose units are matched. -/
theorem matchedUnits_zip_of_full {s : JsString} {flags : List Bool}
    (hlen : flags.length = s.length) (full : flags.count true = s.length) :
    matchedUnits (s.zip flags) = s := by
  have all : ∀ flag ∈ flags, true = flag := List.count_eq_length.1 (full.trans hlen.symm)
  have every : (s.zip flags).filter (·.2) = s.zip flags := by
    rw [List.filter_eq_self]
    exact fun unit hunit => (all _ (List.of_mem_zip hunit).2).symm
  rw [matchedUnits, every, List.map_fst_zip hlen.ge]

/-! ## The score -/

theorem commonPrefix_le (n : ℕ) (s1 s2 : JsString) : commonPrefix n s1 s2 ≤ n := by
  induction n generalizing s1 s2 with
  | zero => simp [commonPrefix]
  | succ n ih =>
    cases s1 with
    | nil => simp [commonPrefix]
    | cons c s1 =>
      cases s2 with
      | nil => simp [commonPrefix]
      | cons d s2 =>
        rw [commonPrefix]
        split_ifs
        · exact Nat.succ_le_succ (ih s1 s2)
        · exact Nat.zero_le _

/-- Numbers that results are compared with below. -/
theorem isDouble_bounds : ∀ a ∈ ([1 / 8, 1 / 2, 7 / 16, 7 / 8, 2, 3, 4, 1 - 2 ^ (-30 : ℤ),
    2 - 2 ^ (-30 : ℤ), 3 - 2 ^ (-30 : ℤ), 1 - 2 ^ (-32 : ℤ), 1 - 2 ^ (-33 : ℤ)] : List ℚ),
      IsDouble a := by
  decide +kernel

theorem share_bounds {part whole : ℕ} (hle : part ≤ whole) (hwhole : 0 < whole)
    (small : whole ≤ 2 ^ 29) : 0 ≤ (part : ℚ) / whole ∧ (part : ℚ) / whole ≤ 1 ∧
      (part < whole → (part : ℚ) / whole ≤ 1 - 2 ^ (-30 : ℤ)) := by
  have pos : (0 : ℚ) < whole := by exact_mod_cast hwhole
  refine ⟨by positivity, ?_, fun hlt => ?_⟩
  · rw [div_le_one pos]
    exact_mod_cast hle
  · have missing : (part : ℚ) + 1 ≤ whole := by exact_mod_cast hlt
    have few : (whole : ℚ) ≤ 2 ^ 29 := by exact_mod_cast small
    rw [div_le_iff₀ pos]
    norm_num
    linarith

/-- What the transpositions leave of the matches. -/
theorem kept_bounds {k matched : ℕ} (hle : k ≤ matched) (hmatched : 0 < matched)
    (small : matched ≤ 2 ^ 29) : 1 / 2 ≤ ((matched : ℚ) - k / 2) / matched ∧
      ((matched : ℚ) - k / 2) / matched ≤ 1 ∧
      (0 < k → ((matched : ℚ) - k / 2) / matched ≤ 1 - 2 ^ (-30 : ℤ)) := by
  have pos : (0 : ℚ) < matched := by exact_mod_cast hmatched
  have hle' : (k : ℚ) ≤ matched := by exact_mod_cast hle
  have nonneg : (0 : ℚ) ≤ k := Nat.cast_nonneg _
  refine ⟨?_, ?_, fun hk => ?_⟩
  · rw [le_div_iff₀ pos]
    linarith
  · rw [div_le_one pos]
    linarith
  · have one : (1 : ℚ) ≤ k := by exact_mod_cast hk
    have few : (matched : ℚ) ≤ 2 ^ 29 := by exact_mod_cast small
    rw [div_le_iff₀ pos]
    norm_num
    linarith

/-- Unless all is matched in order, the score stays away from one by more than rounding can make
up for. -/
theorem jaro_bounds {s1 s2 : JsString} {matched k : ℕ} (hmatched : 0 < matched)
    (le1 : matched ≤ s1.length) (le2 : matched ≤ s2.length) (hk : k ≤ matched)
    (small1 : s1.length ≤ 2 ^ 29) (small2 : s2.length ≤ 2 ^ 29)
    (imperfect : matched < s1.length ∨ matched < s2.length ∨ 0 < k) :
    ∃ d : Double, jaro s1 s2 matched k = .finite d ∧ 1 / 8 ≤ d.1 ∧
      d.1 ≤ 1 - 2 ^ (-32 : ℤ) := by
  have bound := isDouble_bounds
  simp only [List.forall_mem_cons] at bound
  obtain ⟨h8, h2, -, -, two, three, -, near1, near2, near3, near, -⟩ := bound
  obtain ⟨nonneg1, one1, less1⟩ := share_bounds le1 (by omega) small1
  obtain ⟨nonneg2, one2, less2⟩ := share_bounds le2 (by omega) small2
  obtain ⟨half, one3, less3⟩ := kept_bounds hk hmatched (le1.trans small1)
  obtain ⟨a, ha, aboveA, belowA⟩ := Number.ofRat_within isDouble_zero isDouble_one nonneg1 one1
  obtain ⟨b, hb, aboveB, belowB⟩ := Number.ofRat_within isDouble_zero isDouble_one nonneg2 one2
  obtain ⟨c, hc, aboveC, belowC⟩ := Number.ofRat_within h2 isDouble_one half one3
  have a0 := aboveA 0 isDouble_zero nonneg1
  have a1 := belowA 1 isDouble_one one1
  have b0 := aboveB 0 isDouble_zero nonneg2
  have b1 := belowB 1 isDouble_one one2
  have c0 := aboveC (1 / 2) h2 half
  have c1 := belowC 1 isDouble_one one3
  obtain ⟨ab, hab, aboveAB, belowAB⟩ := Number.ofRat_within (q := a.1 + b.1) isDouble_zero two
    (by linarith) (by linarith)
  have ab0 := aboveAB 0 isDouble_zero (by linarith)
  have ab2 := belowAB 2 two (by linarith)
  have tiny : (0 : ℚ) < 2 ^ (-30 : ℤ) := by positivity
  have total : ab.1 + c.1 ≤ 3 - 2 ^ (-30 : ℤ) := by
    rcases imperfect with h | h | h
    · have := belowA _ near1 (less1 h)
      have := belowAB _ near2 (by linarith)
      linarith
    · have := belowB _ near1 (less2 h)
      have := belowAB _ near2 (by linarith)
      linarith
    · have := belowC _ near1 (less3 h)
      linarith
  obtain ⟨abc, habc, aboveABC, belowABC⟩ := Number.ofRat_within (q := ab.1 + c.1) h2 near3
    (by linarith) total
  have abc0 := aboveABC _ h2 (by linarith)
  have abc3 := belowABC _ near3 total
  have high : abc.1 / 3 ≤ 1 - 2 ^ (-32 : ℤ) := by
    norm_num at abc3 ⊢
    linarith
  have low : 1 / 8 ≤ abc.1 / 3 := by linarith
  obtain ⟨d, hd, aboveD, belowD⟩ := Number.ofRat_within h8 near low high
  refine ⟨d, ?_, aboveD _ h8 low, belowD _ near high⟩
  rw [jaro, ha, hb, hc, Number.add_finite, hab, Number.add_finite, habc,
    Number.ofRat_of_isDouble three, Number.div_finite _ (by norm_num), hd]

/-- A common beginning makes up for less than half of the distance from one. -/
theorem boost_bounds {shared : ℕ} (hshared : shared ≤ 4) {score : Double} (low : 1 / 8 ≤ score.1)
    (high : score.1 ≤ 1 - 2 ^ (-32 : ℤ)) : ∃ d : Double, boost shared (.finite score) = .finite d ∧
      1 / 8 ≤ d.1 ∧ d.1 ≤ 1 - 2 ^ (-33 : ℤ) := by
  have bound := isDouble_bounds
  simp only [List.forall_mem_cons] at bound
  obtain ⟨h8, h2, h16, h78, -, -, four, -, -, -, -, near, -⟩ := bound
  have tiny : (0 : ℚ) < 2 ^ (-32 : ℤ) := by positivity
  have shared4 : (shared : ℚ) ≤ 4 := by exact_mod_cast hshared
  have shared0 : (0 : ℚ) ≤ shared := Nat.cast_nonneg _
  obtain ⟨p, hp, aboveP, belowP⟩ := Number.ofRat_within isDouble_zero four shared0 shared4
  obtain ⟨t, ht, aboveT, belowT⟩ := Number.ofRat_within (q := 1 / 10) isDouble_zero h8
    (by norm_num) (by norm_num)
  have p0 := aboveP 0 isDouble_zero shared0
  have p4 := belowP 4 four shared4
  have t0 := aboveT 0 isDouble_zero (by norm_num)
  have t8 := belowT (1 / 8) h8 (by norm_num)
  have share : p.1 * t.1 ≤ 1 / 2 := by
    calc p.1 * t.1 ≤ 4 * (1 / 8) := mul_le_mul p4 t8 t0 (by norm_num)
      _ = 1 / 2 := by norm_num
  obtain ⟨u, hu, aboveU, belowU⟩ := Number.ofRat_within isDouble_zero h2 (mul_nonneg p0 t0) share
  have u0 := aboveU 0 isDouble_zero (mul_nonneg p0 t0)
  have u2 := belowU (1 / 2) h2 share
  obtain ⟨w, hw, w0, total⟩ : ∃ w : Double, (Number.finite u).mul (one.sub (.finite score)) =
      .finite w ∧ 0 ≤ w.1 ∧ score.1 + w.1 ≤ 1 - 2 ^ (-33 : ℤ) := by
    rw [one_eq, Number.sub_finite]
    rcases le_or_gt (1 / 2) score.1 with large | small
    · -- The distance from one is exact, and so is its half.
      obtain ⟨distance, halved⟩ := isDouble_one_sub score.2 large (by linarith)
      have nonneg : 0 ≤ u.1 * (1 - score.1) := mul_nonneg u0 (by linarith)
      have part : u.1 * (1 - score.1) ≤ (1 - score.1) / 2 := by
        have := mul_le_mul_of_nonneg_right u2 (show 0 ≤ 1 - score.1 by linarith)
        linarith
      obtain ⟨w, hw, aboveW, belowW⟩ := Number.ofRat_within isDouble_zero halved nonneg part
      have := belowW _ halved part
      refine ⟨w, ?_, aboveW 0 isDouble_zero nonneg, ?_⟩
      · rw [Number.ofRat_of_isDouble distance, Number.mul_finite, hw]
      · norm_num at high ⊢
        linarith
    · obtain ⟨v, hv, aboveV, belowV⟩ := Number.ofRat_within (q := 1 - score.1) isDouble_zero h78
        (by linarith) (by linarith)
      have v0 := aboveV 0 isDouble_zero (by linarith)
      have v78 := belowV (7 / 8) h78 (by linarith)
      have part : u.1 * v.1 ≤ 7 / 16 := by
        calc u.1 * v.1 ≤ 1 / 2 * (7 / 8) := mul_le_mul u2 v78 v0 (by norm_num)
          _ = 7 / 16 := by norm_num
      obtain ⟨w, hw, aboveW, belowW⟩ := Number.ofRat_within isDouble_zero h16 (mul_nonneg u0 v0)
        part
      have := belowW _ h16 part
      refine ⟨w, ?_, aboveW 0 isDouble_zero (mul_nonneg u0 v0), ?_⟩
      · rw [hv, Number.mul_finite, hw]
      · norm_num
        linarith
  obtain ⟨d, hd, aboveD, belowD⟩ := Number.ofRat_within h8 near
    (show 1 / 8 ≤ score.1 + w.1 by linarith) total
  refine ⟨d, ?_, aboveD _ h8 (by linarith), belowD _ near total⟩
  rw [boost, hp, ht, Number.mul_finite, hu, hw, Number.add_finite, hd]

/-- The score of two strings exists and is between zero and one. Only equal strings have the score
one, and only strings without alike units near each other have the score zero. -/
theorem jaroWinkler_score {s1 s2 : JsString} (small1 : s1.length ≤ 2 ^ 29)
    (small2 : s2.length ≤ 2 ^ 29) : ∃ score : Double, jaroWinkler s1 s2 = some (.finite score) ∧
      0 ≤ score.1 ∧ score.1 ≤ 1 ∧ (score.1 = 1 ↔ s1 = s2) ∧
      (score.1 = 0 ↔ s1 ≠ s2 ∧ ¬ Alike s1 s2) := by
  unfold jaroWinkler
  by_cases same : s1 = s2
  · rw [if_pos same, one_eq]
    exact ⟨_, rfl, by norm_num, le_rfl, by simp [same], by simp [same]⟩
  rw [if_neg same]
  have zero (alike : ¬ Alike s1 s2) : ∃ score : Double,
      some Number.zero = some (Number.finite score) ∧ 0 ≤ score.1 ∧ score.1 ≤ 1 ∧
        (score.1 = 1 ↔ s1 = s2) ∧ (score.1 = 0 ↔ s1 ≠ s2 ∧ ¬ Alike s1 s2) :=
    ⟨⟨0, isDouble_zero⟩, rfl, le_rfl, by norm_num, by simp [same], by simp [same, alike]⟩
  by_cases empty : s1.length = 0 ∨ s2.length = 0
  · rw [if_pos empty]
    apply zero
    rintro ⟨i, c, hc, j, -, hj⟩
    have hi := (List.getElem?_eq_some_iff.1 hc).1
    have hj := (List.getElem?_eq_some_iff.1 hj).1
    omega
  rw [if_neg empty]
  have matched := matched_matching s1 s2
  have decided := matching_count_eq_zero_iff s1 s2
  generalize matching s1 s2 = m at matched decided
  dsimp only
  by_cases none : m.count = 0
  · rw [if_pos none]
    exact zero (decided.1 none)
  rw [if_neg none]
  have le1 : m.count ≤ s1.length := by
    rw [← matched.count1, ← matched.length1]
    exact List.count_le_length
  have le2 : m.count ≤ s2.length := by
    rw [← matched.count2, ← matched.length2]
    exact List.count_le_length
  have length1 := length_matchedUnits_zip matched.length1
  have length2 := length_matchedUnits_zip matched.length2
  rw [matched.count1] at length1
  rw [matched.count2] at length2
  obtain ⟨k, hk, result, untransposed⟩ := transpositionsFrom_spec (s1.zip m.match1)
    (s2.zip m.match2) 0 (by omega)
  rw [Nat.zero_add] at result
  rw [length1] at hk
  -- All units are matched in order only if the strings are equal.
  have imperfect : m.count < s1.length ∨ m.count < s2.length ∨ 0 < k := by
    by_contra perfect
    have all1 : m.count = s1.length := by omega
    have all2 : m.count = s2.length := by omega
    have alike := untransposed (by omega)
    rw [matchedUnits_zip_of_full matched.length1 (matched.count1.trans all1),
      matchedUnits_zip_of_full matched.length2 (matched.count2.trans all2)] at alike
    exact same (alike.eq_of_length (all1.symm.trans all2))
  obtain ⟨d, hd, low, high⟩ := jaro_bounds (Nat.pos_of_ne_zero none) le1 le2 hk small1 small2
    imperfect
  obtain ⟨score, hscore, low, high⟩ := boost_bounds (commonPrefix_le 4 s1 s2) low high
  have below : score.1 < 1 := by
    norm_num at high
    linarith
  have alike : Alike s1 s2 := not_not.1 fun h => none (decided.2 h)
  refine ⟨score, ?_, by linarith, below.le, ?_, ?_⟩
  · rw [result, ← hscore, ← hd]
    rfl
  · simp only [same, iff_false]
    exact below.ne
  · simp only [alike, not_true, and_false, iff_false]
    intro h
    linarith

/-! ## The search -/

variable (toLowerCase : JsString → JsString)

/-- The rows that reach the threshold, with their scores. -/
def scoreRows (target : JsString) (threshold : Number) :
    List SanctionEntity → Option (List (SanctionEntity × Number))
  | [] => some []
  | row :: rows => do
    let score ← jaroWinkler target (normalizeName toLowerCase row.name)
    let found ← scoreRows target threshold rows
    return if threshold.le score then (row, score) :: found else found

def searchSanctions (name : JsString) (threshold : Number) (rows : List SanctionEntity) :
    Option (List (SanctionEntity × Number)) := do
  let found ← scoreRows toLowerCase (normalizeName toLowerCase name) threshold rows
  return found.mergeSort fun a b => (b.2.sub a.2).le Number.zero

variable {toLowerCase} {target : JsString} {threshold : Number}

/-- A row has this score, and it reaches the threshold. -/
abbrev Scored (toLowerCase : JsString → JsString) (target : JsString) (threshold : Number)
    (row : SanctionEntity) (score : Double) : Prop :=
  jaroWinkler target (normalizeName toLowerCase row.name) = some (.finite score) ∧
    threshold.le (.finite score) = true

theorem Scored.bounds {row : SanctionEntity} {score : Double}
    (h : Scored toLowerCase target threshold row score) (smallTarget : target.length ≤ 2 ^ 29)
    (smallRow : (normalizeName toLowerCase row.name).length ≤ 2 ^ 29) :
    0 ≤ score.1 ∧ score.1 ≤ 1 ∧
      (score.1 = 1 ↔ normalizeName toLowerCase row.name = target) := by
  obtain ⟨score', hscore, nonneg, bound, equal, -⟩ := jaroWinkler_score smallTarget smallRow
  rw [h.1, Option.some.injEq, Number.finite.injEq] at hscore
  rw [hscore]
  exact ⟨nonneg, bound, equal.trans eq_comm⟩

def asNumber (m : SanctionEntity × Double) : SanctionEntity × Number := (m.1, .finite m.2)

theorem scoreRows_eq (threshold : Number) {rows : List SanctionEntity}
    (smallTarget : target.length ≤ 2 ^ 29)
    (small : ∀ row ∈ rows, (normalizeName toLowerCase row.name).length ≤ 2 ^ 29) :
    ∃ found : List (SanctionEntity × Double),
      scoreRows toLowerCase target threshold rows = some (found.map asNumber) ∧
      (∀ m ∈ found, Scored toLowerCase target threshold m.1 m.2) ∧
      ∀ score, (found.filter (·.2 = score)).map (·.1) =
        rows.filter (Scored toLowerCase target threshold · score) := by
  induction rows with
  | nil => exact ⟨[], rfl, by simp, by simp⟩
  | cons row rows ih =>
    obtain ⟨smallRow, smallRows⟩ := List.forall_mem_cons.1 small
    obtain ⟨found, hfound, scored, complete⟩ := ih smallRows
    obtain ⟨score, hscore, -⟩ := jaroWinkler_score smallTarget smallRow
    by_cases reached : threshold.le (.finite score) = true
    · refine ⟨(row, score) :: found, ?_, List.forall_mem_cons.2 ⟨⟨hscore, reached⟩, scored⟩, ?_⟩
      · simp [scoreRows, hscore, hfound, reached, asNumber]
      · intro score'
        by_cases same : score = score'
        · rw [← same, List.filter_cons_of_pos (by simp), List.map_cons, complete,
            List.filter_cons_of_pos (by simp [hscore, reached])]
        · rw [List.filter_cons_of_neg (by simpa using same), complete,
            List.filter_cons_of_neg]
          simp [hscore, same]
    · refine ⟨found, ?_, scored, fun score' => ?_⟩
      · simp [scoreRows, hscore, hfound, reached]
      · rw [complete, List.filter_cons_of_neg]
        simp only [Scored, hscore, Option.some.injEq, Number.finite.injEq, decide_eq_true_eq]
        rintro ⟨rfl, h⟩
        exact reached h

/-- Sorting keeps the order of entries that none of them has to leave. -/
theorem filter_mergeSort {α : Type} {le : α → α → Bool} (l : List α) (p : α → Bool)
    (trans : ∀ a b c, le a b → le b c → le a c) (total : ∀ a b, le a b || le b a)
    (tied : ∀ a b, p a → p b → le a b) : (l.mergeSort le).filter p = l.filter p := by
  have ordered : (l.filter p).Pairwise fun a b => le a b = true := by
    apply List.pairwise_of_forall_mem_list
    intro a ha b hb
    exact tied a b (List.mem_filter.1 ha).2 (List.mem_filter.1 hb).2
  have within := (List.sublist_mergeSort trans total ordered List.filter_sublist).filter p
  rw [List.filter_filter, List.filter_congr fun a _ => Bool.and_self (p a)] at within
  exact (within.eq_of_length ((List.mergeSort_perm l le).filter p).length_eq.symm).symm

/-- Of a list in falling order the greatest come first. -/
theorem filter_prefix_of_sorted {found : List (SanctionEntity × Double)} {greatest : Double}
    (sorted : found.Pairwise fun a b => b.2.1 ≤ a.2.1) (le : ∀ m ∈ found, m.2.1 ≤ greatest.1) :
    found.filter (·.2 = greatest) <+: found := by
  induction found with
  | nil => exact List.prefix_rfl
  | cons m found ih =>
    obtain ⟨first, sorted⟩ := List.pairwise_cons.1 sorted
    obtain ⟨hm, le⟩ := List.forall_mem_cons.1 le
    by_cases same : m.2 = greatest
    · rw [List.filter_cons_of_pos (by simpa using same)]
      exact (List.prefix_cons_inj m).2 (ih sorted le)
    · have none : (m :: found).filter (·.2 = greatest) = [] := by
        rw [List.filter_eq_nil_iff]
        refine List.forall_mem_cons.2 ⟨by simpa using same, fun n hn => ?_⟩
        have less : m.2.1 < greatest.1 := lt_of_le_of_ne hm fun h => same (Subtype.ext h)
        have := first n hn
        rw [decide_eq_true_eq]
        rintro rfl
        linarith
      rw [none]
      exact List.nil_prefix

/-- A search finds the rows that reach the threshold: the best first, rows of the same score as
they are stored, and before all others the rows that have the name. -/
theorem searchSanctions_ranked (name : JsString) {rows : List SanctionEntity}
    (smallName : (normalizeName toLowerCase name).length ≤ 2 ^ 29)
    (small : ∀ row ∈ rows, (normalizeName toLowerCase row.name).length ≤ 2 ^ 29) :
    ∃ found : List (SanctionEntity × Double),
      searchSanctions toLowerCase name threshold rows = some (found.map asNumber) ∧
      found.Pairwise (fun a b => b.2.1 ≤ a.2.1) ∧
      (∀ m ∈ found, 0 ≤ m.2.1 ∧ m.2.1 ≤ 1 ∧ (m.2.1 = 1 ↔
        normalizeName toLowerCase m.1.name = normalizeName toLowerCase name)) ∧
      (∀ score, (found.filter (·.2 = score)).map (·.1) =
        rows.filter (Scored toLowerCase (normalizeName toLowerCase name) threshold · score)) ∧
      (threshold.le one = true →
        rows.filter (fun row => normalizeName toLowerCase row.name =
          normalizeName toLowerCase name) <+: found.map (·.1)) := by
  obtain ⟨found, hfound, scored, complete⟩ := scoreRows_eq threshold smallName small
  let le (a b : SanctionEntity × Double) : Bool := decide (b.2.1 ≤ a.2.1)
  have trans : ∀ a b c, le a b → le b c → le a c := by
    simp only [le, decide_eq_true_eq]
    exact fun a b c hab hbc => hbc.trans hab
  have total : ∀ a b, le a b || le b a := by
    intro a b
    simpa [le] using le_total b.2.1 a.2.1
  have same : (found.mergeSort le).map asNumber =
      (found.map asNumber).mergeSort fun a b => (b.2.sub a.2).le Number.zero :=
    List.map_mergeSort fun a _ b _ => (Number.sub_le_zero b.2 a.2).symm
  have sorted : (found.mergeSort le).Pairwise fun a b => b.2.1 ≤ a.2.1 :=
    (List.pairwise_mergeSort trans total found).imp of_decide_eq_true
  have complete' : ∀ score, ((found.mergeSort le).filter (·.2 = score)).map (·.1) =
      rows.filter (Scored toLowerCase (normalizeName toLowerCase name) threshold · score) := by
    intro score
    rw [filter_mergeSort found _ trans total, complete]
    simp only [le, decide_eq_true_eq]
    rintro a b rfl hb
    rw [hb]
  have bounded : ∀ m ∈ found.mergeSort le, 0 ≤ m.2.1 ∧ m.2.1 ≤ 1 ∧ (m.2.1 = 1 ↔
      normalizeName toLowerCase m.1.name = normalizeName toLowerCase name) := by
    intro m hm
    have hrow : m.1 ∈ rows := by
      have : m.1 ∈ ((found.mergeSort le).filter (·.2 = m.2)).map (·.1) :=
        List.mem_map_of_mem (List.mem_filter.2 ⟨hm, by simp⟩)
      rw [complete'] at this
      exact List.mem_of_mem_filter this
    exact (scored m (List.mem_mergeSort.1 hm)).bounds smallName (small m.1 hrow)
  refine ⟨found.mergeSort le, ?_, sorted, bounded, complete', fun reached => ?_⟩
  · rw [searchSanctions, hfound, same]
    rfl
  · have named : rows.filter (fun row => normalizeName toLowerCase row.name =
        normalizeName toLowerCase name) = rows.filter (Scored toLowerCase
          (normalizeName toLowerCase name) threshold · ⟨1, isDouble_one⟩) := by
      refine List.filter_congr fun row hrow => decide_eq_decide.2 ⟨fun h => ?_, fun h => ?_⟩
      · rw [Scored, h, jaroWinkler, if_pos rfl, ← one_eq]
        exact ⟨rfl, reached⟩
      · exact (h.bounds smallName (small row hrow)).2.2.1 rfl
    rw [named, ← complete']
    exact (filter_prefix_of_sorted sorted fun m hm => (bounded m hm).2.1).map _

/-- Two rows with names that differ in the last unit. -/
def twoRows : List SanctionEntity :=
  [⟨[97, 98, 99, 97, 98, 99], none, "UN", none, none⟩,
    ⟨[97, 98, 99, 97, 98, 100], none, "EU", none, none⟩]

/-- Both are found, and the one that has the name comes first. -/
theorem searchSanctions_ranked_twoRows : ∃ found : List (SanctionEntity × Double),
    searchSanctions id [97, 98, 99, 97, 98, 100] Sanctions.threshold twoRows =
        some (found.map asNumber) ∧
      [⟨[97, 98, 99, 97, 98, 100], none, "EU", none, none⟩] <+: found.map (·.1) ∧
      ⟨[97, 98, 99, 97, 98, 99], none, "UN", none, none⟩ ∈ found.map (·.1) := by
  obtain ⟨found, result, -, -, complete, first⟩ :=
    @searchSanctions_ranked id Sanctions.threshold [97, 98, 99, 97, 98, 100] twoRows (by decide)
      (by decide)
  refine ⟨found, result, first (by decide +kernel), ?_⟩
  obtain ⟨score, hscore, -⟩ := @jaroWinkler_score [97, 98, 99, 97, 98, 100]
    [97, 98, 99, 97, 98, 99] (by decide) (by decide)
  have reaches : (jaroWinkler [97, 98, 99, 97, 98, 100] [97, 98, 99, 97, 98, 99]).any
      Sanctions.threshold.le = true := by decide +kernel
  rw [hscore] at reaches
  have scored : (⟨[97, 98, 99, 97, 98, 99], none, "UN", none, none⟩ : SanctionEntity) ∈
      twoRows.filter (Scored id (normalizeName id [97, 98, 99, 97, 98, 100])
        Sanctions.threshold · score) :=
    List.mem_filter.2 ⟨List.mem_cons_self, decide_eq_true ⟨hscore, reaches⟩⟩
  rw [← complete score] at scored
  exact (List.filter_sublist.map _).subset scored

end MobileMoney.Sanctions
