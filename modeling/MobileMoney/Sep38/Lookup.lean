import Mathlib.Data.Option.Basic
import MobileMoney.Sep38.Program

/-!
# Looking a quote up

`getQuote` looks into the cache, into the table and into the memory of its process, in this
order. What it finds in the cache it compares with the clock; what it finds elsewhere it
returns as it is stored there. A quote that nobody has swept yet then stays live beyond its
expiry.
-/

namespace MobileMoney.Sep38

variable {K P : Type}

/-! ## The call -/

inductive ReadAnswer (K : Type) where
  | answered (row : Option (Sep38Quote K))
  | failed

/-- What a call meets: the cached copy, the answer of the table, the copy in the memory, and
whether the cache of the process is full, so that it throws when a value is put into it. -/
structure Met (K : Type) where
  cached : Option (Sep38Quote K)
  database : ReadAnswer K
  memory : Option (Sep38Quote K)
  cacheFull : Bool

/-- `markExpired` is the assignment to the status of the cached object. -/
inductive Effect (K : Type) where
  | cacheDel (id : K)
  | markExpired
  | cacheSet (quote : Sep38Quote K) (ttlSeconds : ℕ)

def getQuote (id : K) (now : ℕ) (met : Met K) : Option (Sep38Quote K) × List (Effect K) :=
  match met.cached with
  | some cached =>
    if cached.expiresAt < now then
      if cached.Live then
        (some { cached with status := .expired }, [.cacheDel id, .markExpired])
      else (some cached, [.cacheDel id])
    else (some cached, [])
  | none =>
    match met.database with
    | .answered (some quote) =>
      if now < quote.expiresAt ∧ quote.Live then
        -- a full cache throws inside the `try` of the query
        if met.cacheFull then (met.memory, [])
        else (some quote, [.cacheSet quote ((quote.expiresAt - now + 999) / 1000)])
      else (some quote, [])
    | .answered none => (met.memory, [])
    | .failed => (met.memory, [])

/-! ## Freshness -/

/-- The quote is not live beyond its expiry. -/
def Sep38Quote.Swept (quote : Sep38Quote K) (now : ℕ) : Prop :=
  quote.Live → now ≤ quote.expiresAt

instance (quote : Sep38Quote K) (now : ℕ) : Decidable (quote.Swept now) :=
  inferInstanceAs (Decidable (_ → _))

def Fresh (now : ℕ) (found : Option (Sep38Quote K)) : Prop := ∀ quote ∈ found, quote.Swept now

/-- The copy outside the cache that the call comes to is not live beyond its expiry: the row, or
the copy in the memory where there is no row, no answer, or no room in the cache for a row that
is to be put there. -/
structure SweptOutside (now : ℕ) (met : Met K) : Prop where
  row : ∀ quote, met.database = .answered (some quote) → quote.Swept now
  memory : met.database = .failed ∨ met.database = .answered none ∨
      (met.cacheFull = true ∧ ∃ quote, met.database = .answered (some quote) ∧
        now < quote.expiresAt ∧ quote.Live) →
    Fresh now met.memory

theorem fresh_some {now : ℕ} {quote : Sep38Quote K} :
    Fresh now (some quote) ↔ quote.Swept now := by
  simp [Fresh]

/-- What the cache holds is reported with its expiry. -/
theorem getQuote_cached_fresh (id : K) (now : ℕ) {met : Met K} {quote : Sep38Quote K}
    (hcached : met.cached = some quote) : Fresh now (getQuote id now met).1 := by
  unfold getQuote
  rw [hcached]
  dsimp only
  split_ifs with hpast hlive
  · exact fresh_some.2 fun hlive' => by simp [Sep38Quote.Live] at hlive'
  · exact fresh_some.2 fun hlive' => absurd hlive' hlive
  · exact fresh_some.2 fun _ => Nat.not_lt.1 hpast

theorem getQuote_uncached_fresh_iff (id : K) (now : ℕ) {met : Met K}
    (hcached : met.cached = none) :
    Fresh now (getQuote id now met).1 ↔ SweptOutside now met := by
  unfold getQuote
  rw [hcached]
  cases hdatabase : met.database with
  | failed =>
    exact ⟨fun fresh => ⟨by simp [hdatabase], fun _ => fresh⟩,
      fun swept => swept.memory (.inl hdatabase)⟩
  | answered row =>
    cases row with
    | none =>
      exact ⟨fun fresh => ⟨by simp [hdatabase], fun _ => fresh⟩,
        fun swept => swept.memory (.inr (.inl hdatabase))⟩
    | some quote =>
      dsimp only
      split_ifs with hput hfull
      · obtain ⟨hfuture, hlive⟩ := hput
        constructor
        · refine fun fresh => ⟨?_, fun _ => fresh⟩
          rintro _ hrow -
          cases hdatabase.symm.trans hrow
          exact Nat.le_of_lt hfuture
        · exact fun swept =>
            swept.memory (.inr (.inr ⟨hfull, quote, hdatabase, hfuture, hlive⟩))
      · refine ⟨fun fresh => ⟨?_, ?_⟩, fun swept => fresh_some.2 (swept.row quote hdatabase)⟩
        · intro _ hrow
          cases hdatabase.symm.trans hrow
          exact fresh_some.1 fresh
        · rintro (hfailed | hnone | ⟨hfull', -⟩)
          · cases hdatabase.symm.trans hfailed
          · cases hdatabase.symm.trans hnone
          · exact absurd hfull' hfull
      · refine ⟨fun fresh => ⟨?_, ?_⟩, fun swept => fresh_some.2 (swept.row quote hdatabase)⟩
        · intro _ hrow
          cases hdatabase.symm.trans hrow
          exact fresh_some.1 fresh
        · rintro (hfailed | hnone | ⟨-, _, hrow, hput'⟩)
          · cases hdatabase.symm.trans hfailed
          · cases hdatabase.symm.trans hnone
          · cases hdatabase.symm.trans hrow
            exact absurd hput' hput

/-! ## The law -/

/-- From the cache and from the table the same quote is reported with the same status. -/
def SameStatus (id : K) (now : ℕ) (quote : Sep38Quote K) : Prop :=
  ∀ hit miss : Met K, hit.cached = some quote → miss.cached = none →
    miss.database = .answered (some quote) → miss.cacheFull = false →
    (getQuote id now hit).1.map (·.status) = (getQuote id now miss).1.map (·.status)

theorem sameStatus_iff (id : K) (now : ℕ) (quote : Sep38Quote K) :
    SameStatus id now quote ↔ quote.Swept now := by
  have fromTable : ∀ miss : Met K, miss.cached = none → miss.database = .answered (some quote) →
      miss.cacheFull = false → (getQuote id now miss).1 = some quote := by
    intro miss hcached hdatabase hroom
    simp only [getQuote, hcached, hdatabase, hroom, Bool.false_eq_true, if_false]
    split_ifs <;> rfl
  constructor
  · intro same hlive
    have hstatus := same ⟨some quote, .failed, none, false⟩
      ⟨none, .answered (some quote), none, false⟩ rfl rfl rfl rfl
    rw [fromTable ⟨none, .answered (some quote), none, false⟩ rfl rfl rfl] at hstatus
    by_contra hpast
    simp only [getQuote, if_pos (Nat.not_le.1 hpast), if_pos hlive, Option.map_some,
      Option.some.injEq] at hstatus
    rw [Sep38Quote.Live, ← hstatus] at hlive
    simp at hlive
  · intro swept hit miss hcached hnone hdatabase hroom
    rw [fromTable miss hnone hdatabase hroom]
    simp only [getQuote, hcached]
    split_ifs with hpast hlive
    · exact absurd (swept hlive) (Nat.not_le.2 hpast)
    · rfl
    · rfl

/-- For every quote, every time and every condition of the cache, the table and the memory: no
quote is reported as live beyond its expiry exactly when it comes from the cache or the copy
that is found elsewhere is not live beyond its expiry; and the cache and the table report the
same status exactly for a quote that is not. -/
theorem getQuote_fresh_iff (id : K) (now : ℕ) (met : Met K) (quote : Sep38Quote K) :
    (Fresh now (getQuote id now met).1 ↔ met.cached.isSome = true ∨ SweptOutside now met) ∧
      (SameStatus id now quote ↔ quote.Swept now) := by
  refine ⟨?_, sameStatus_iff id now quote⟩
  cases hcached : met.cached with
  | none => simpa using getQuote_uncached_fresh_iff id now hcached
  | some cached => simpa using getQuote_cached_fresh id now hcached

/-! ## A quote that has not been swept -/

section Stores

variable [DecidableEq K] [DecidableEq P]

def State.find (s : State K P) (store : Store P) (id : K) : Option (Sep38Quote K) :=
  (s.stored.find? (byId store id)).map (·.quote)

/-- What a call in a process meets with nothing in the cache, while the database answers or is
down. -/
def State.meets (s : State K P) (process : P) (id : K) (down : Bool) : Met K where
  cached := none
  database := if down then .failed else .answered (s.find .database id)
  memory := s.find (.inMemoryQuotes process) id
  cacheFull := false

end Stores

/-- An active quote for a minute, a millisecond after it. -/
def unswept : List (Event ℕ Bool) :=
  [.createQuote true 0 ⟨some "owner", "USD", "XLM", some .active, some 5, some 60⟩ .answered,
    .redis 0 .answered, .passes 60001]

/-- A quote with the default status, which is in the memory for the table does not take it. -/
def unsweptInMemory : List (Event ℕ Bool) :=
  [.createQuote true 0 ⟨some "owner", "USD", "XLM", none, some 5, some 60⟩ .answered,
    .redis 0 .answered, .passes 60001]

/-- The table reports the first as active and the memory the second as pending, and the cache both
as expired. -/
theorem unswept_reported_live :
    (¬ ∀ (events : List (Event ℕ Bool)) process id,
      let s := run nodeRedis events
      Fresh s.now (getQuote id s.now (s.meets process id false)).1) ∧
    (¬ ∀ (events : List (Event ℕ Bool)) process id,
      let s := run nodeRedis events
      Fresh s.now (getQuote id s.now (s.meets process id true)).1) ∧
    ¬ ∀ (events : List (Event ℕ Bool)) id quote,
      let s := run nodeRedis events
      s.find .database id = some quote → SameStatus id s.now quote := by
  refine ⟨fun law => ?_, fun law => ?_, fun law => ?_⟩
  · exact absurd (law unswept true 0 _ rfl (.inl rfl)) (by decide)
  · exact absurd (law unsweptInMemory true 0 _ rfl (.inr rfl)) (by decide)
  · have same := law unswept 0 _ rfl ⟨some _, .failed, none, false⟩
      ⟨none, .answered (some _), none, false⟩ rfl rfl rfl rfl
    cases same

end MobileMoney.Sep38
