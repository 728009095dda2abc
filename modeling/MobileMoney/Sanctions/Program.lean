import Mathlib.Data.List.Sort
import MobileMoney.Library.Answers
import MobileMoney.Library.Interleaving
import MobileMoney.Sanctions.Matching

/-!
# Sanctions screening

`services/sanctionService.ts`: calls of `checkParties` and updates of the list in one process of the
program. A turn goes up to the next `await`; others write the list at any time, and what fails may
have been executed.
-/

namespace MobileMoney.Sanctions

open Binary64

variable (toLowerCase : JsString → JsString)

inductive Party where
  | sender | receiver
  deriving DecidableEq, Repr

/-- The arguments, with the normalized names that are listed when the call begins. The code does
not keep these. -/
structure Call where
  senderName : JsString
  receiverName : JsString
  listed : List JsString
  deriving DecidableEq

def Call.name (call : Call) : Party → JsString
  | .sender => call.senderName
  | .receiver => call.receiverName

structure Hit where
  entity : SanctionEntity
  score : Number
  deriving DecidableEq

structure SanctionScreeningError where
  party : Party
  screenedName : JsString
  matchedEntity : JsString
  score : Number
  source : String
  deriving DecidableEq

/-- A search for a party: whether it is listed, as it was when the call began, and whether the
search has found anything. -/
structure Screening where
  call : Call
  party : Party
  listed : Bool
  matched : Bool
  deriving DecidableEq

/-- The table, the cache of the process, its clock and the searches made. -/
structure State where
  sanctionList : List SanctionEntity
  sanctionCache : List (CachedSanctionEntry toLowerCase)
  cacheInitialized : Bool
  lastCacheUpdate : ℕ
  now : ℕ
  screenings : List Screening

def cacheExpiryMs : ℕ := 3600000

/-! ## The list -/

/-- `ON CONFLICT (external_id, source) DO UPDATE`; a missing external id is in conflict with
none. -/
def upsert (sanctionList : List SanctionEntity) (entity : SanctionEntity) :
    List SanctionEntity :=
  let conflict (row : SanctionEntity) : Bool :=
    entity.externalId.isSome && row.externalId = entity.externalId && row.source = entity.source
  if sanctionList.any conflict then
    sanctionList.map fun row =>
      if conflict row then
        { row with name := entity.name, country := entity.country, category := entity.category }
      else row
  else sanctionList ++ [entity]

/-- `BEGIN` to `COMMIT`. -/
def upsertAll (sanctionList : List SanctionEntity) (entities : List SanctionEntity) :
    List SanctionEntity :=
  entities.foldl upsert sanctionList

/-! ## The search -/

section Search

variable {toLowerCase}

/-- The clock is looked at after each entry: `budget` more entries are scored after the first
one. -/
def scan (name : JsString) : List (CachedSanctionEntry toLowerCase) → ℕ → List Hit
  | [], _ => []
  | cached :: rest, budget =>
    let score := calculateMatchScore name cached
    let found := if threshold.le score then [⟨cached.entity, score⟩] else []
    match budget with
    | 0 => found
    | budget + 1 => found ++ scan name rest budget

/-- By score, descending. -/
def sortHits (hits : List Hit) : List Hit := hits.insertionSort fun a b => !a.score.lt b.score

end Search

/-- What a call waits for. -/
inductive Phase where
  | idle
  | ensuring (call : Call) (party : Party)
  | querying (call : Call) (party : Party) (asked : ℕ)
  | caching (call : Call) (party : Party) (asked : ℕ) (rows : List SanctionEntity)
  | searching (call : Call) (party : Party)
  | resolved (call : Call)
  | blocked (call : Call) (error : SanctionScreeningError)
  | updating (entities : List SanctionEntity) (clears : Bool)
  | clearing
  | updated
  | threw
  deriving DecidableEq

/-- `write` is another writer of the table. -/
inductive Input where
  | checkParties (senderName receiverName : JsString)
  | updateSanctionListBatch (entities : List SanctionEntity)
  | updateSanctionList (entities : List SanctionEntity)
  | write (sanctionList : List SanctionEntity)
  | elapse (ms : ℕ)
  | turn (answer : DbAnswer)
  | search (budget : ℕ)

section Turns

variable {toLowerCase}

/-- The normalized names of the table. -/
def State.names (s : State toLowerCase) : List JsString :=
  s.sanctionList.map fun entity => normalizeName toLowerCase entity.name

/-- The party is listed, and it was when the call began. -/
def State.Listed (s : State toLowerCase) (call : Call) (party : Party) : Prop :=
  normalizeName toLowerCase (call.name party) ∈ call.listed ∧
    normalizeName toLowerCase (call.name party) ∈ s.names

instance (s : State toLowerCase) (call : Call) (party : Party) :
    Decidable (s.Listed call party) :=
  inferInstanceAs (Decidable (_ ∧ _))

def ensureCacheInitialized (s : State toLowerCase) (call : Call) (party : Party) : Phase :=
  if s.cacheInitialized ∧ s.now - s.lastCacheUpdate < cacheExpiryMs then .searching call party
  else .querying call party s.now

def State.cacheRows (s : State toLowerCase) (asked : ℕ) (rows : List SanctionEntity) :
    State toLowerCase :=
  { s with
    sanctionCache := rows.map (cachedEntry toLowerCase)
    cacheInitialized := true
    lastCacheUpdate := asked }

def turn (answer : DbAnswer) (s : State toLowerCase) (phase : Phase) :
    State toLowerCase × Phase :=
  match phase with
  | .ensuring call party => (s, ensureCacheInitialized s call party)
  | .querying call party asked =>
    (s, if answer = .answered then .caching call party asked s.sanctionList else .threw)
  | .caching call party asked rows => (s.cacheRows asked rows, .searching call party)
  | .updating entities clears =>
    (if answer.executed then { s with sanctionList := upsertAll s.sanctionList entities } else s,
      if answer = .answered then if clears then .clearing else .updated else .threw)
  | .clearing => ({ s with cacheInitialized := false, sanctionCache := [] }, .updated)
  | phase => (s, phase)

def searchSanctionsWithLevenshtein (budget : ℕ) (s : State toLowerCase) (call : Call)
    (party : Party) : State toLowerCase × Phase :=
  let found := sortHits (scan (call.name party) s.sanctionCache budget)
  let screening : Screening := ⟨call, party, s.Listed call party, !found.isEmpty⟩
  ({ s with screenings := s.screenings ++ [screening] },
    match found, party with
    | top :: _, party =>
      .blocked call ⟨party, call.name party, top.entity.name, top.score, top.entity.source⟩
    | [], .sender => .ensuring call .receiver
    | [], .receiver => .resolved call)

def Phase.AtRest : Phase → Bool
  | .idle | .resolved _ | .blocked _ _ | .updated | .threw => true
  | _ => false

def step (input : Input) (s : State toLowerCase) (phase : Phase) : State toLowerCase × Phase :=
  match input with
  | .checkParties senderName receiverName =>
    (s, if phase.AtRest then .ensuring ⟨senderName, receiverName, s.names⟩ .sender else phase)
  | .updateSanctionListBatch entities =>
    (s, if phase.AtRest then if entities.isEmpty then .updated else .updating entities false
      else phase)
  | .updateSanctionList entities =>
    (s, if phase.AtRest then .updating entities true else phase)
  | .write sanctionList => ({ s with sanctionList }, phase)
  | .elapse ms => ({ s with now := s.now + ms }, phase)
  | .turn answer => turn answer s phase
  | .search budget =>
    match phase with
    | .searching call party => searchSanctionsWithLevenshtein budget s call party
    | phase => (s, phase)

end Turns

abbrev World (ι : Type) := Interleaving.World (State toLowerCase) ι Phase

def World.init {ι : Type} : World toLowerCase ι := ⟨⟨[], [], false, 0, 0, []⟩, fun _ => .idle⟩

end MobileMoney.Sanctions
