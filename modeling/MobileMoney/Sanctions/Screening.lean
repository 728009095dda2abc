import MobileMoney.Sanctions.Program

/-!
# Listed names that are found

A search finds a listed name when it comes to an entry under the name and the name has a word in it.
The cache may be older than the list, the clock may end the search before the entry, and a name
without ASCII letters has no words.
-/

namespace MobileMoney.Sanctions

open Interleaving

variable {ι : Type} {toLowerCase : JsString → JsString}

/-- Every search for a listed party finds something, and so blocks the call; a call that resolves
has no listed party. -/
structure Complete (w : World toLowerCase ι) : Prop where
  found : ∀ screening ∈ w.shared.screenings, screening.listed = true → screening.matched = true
  resolved : ∀ i call, w.locals i = .resolved call → ∀ party, ∃ screening ∈ w.shared.screenings,
    screening.call = call ∧ screening.party = party ∧ screening.listed = false

/-- The entries that a search comes to. -/
def State.reached (s : State toLowerCase) (budget : ℕ) : List (CachedSanctionEntry toLowerCase) :=
  s.sanctionCache.take (budget + 1)

/-- The search for a listed party comes to an entry under its name, which has a word in it; or to
one of another name that is close enough. -/
def ComesToEntry (input : Input) (s : State toLowerCase) (phase : Phase) : Prop :=
  match input, phase with
  | .search budget, .searching call party =>
    s.Listed call party →
      (∃ c ∈ toLowerCase (call.name party), isWord c = true) ∧
          (∃ cached ∈ s.reached budget,
            cached.normalizedName = normalizeName toLowerCase (call.name party)) ∨
        ∃ cached ∈ s.reached budget,
          cached.normalizedName ≠ normalizeName toLowerCase (call.name party) ∧
            threshold.le (calculateMatchScore (call.name party) cached) = true
  | _, _ => True

instance (input : Input) (s : State toLowerCase) (phase : Phase) :
    Decidable (ComesToEntry input s phase) := by
  unfold ComesToEntry
  split <;> infer_instance

/-! ## One search -/

theorem scan_eq_nil_iff (name : JsString) (entries : List (CachedSanctionEntry toLowerCase))
    (budget : ℕ) : scan name entries budget = [] ↔
      ∀ cached ∈ entries.take (budget + 1),
        threshold.le (calculateMatchScore name cached) = false := by
  induction entries generalizing budget with
  | nil => simp [scan]
  | cons cached rest ih =>
    cases budget with
    | zero =>
      simp only [scan]
      split_ifs with hmatch <;> simp [hmatch]
    | succ budget =>
      have later := ih budget
      simp only [scan]
      split_ifs with hmatch <;> simp [hmatch, later]

/-- An entry under a name in ASCII matches it, and no entry matches a name without a word. -/
theorem matches_iff {name : JsString} {cached : CachedSanctionEntry toLowerCase}
    (h : cached.normalizedName = normalizeName toLowerCase name) :
    threshold.le (calculateMatchScore name cached) = true ↔
      ∃ c ∈ toLowerCase name, isWord c = true := by
  by_cases words : tokenize toLowerCase name = []
  · rw [not_matches_of_no_tokens h words]
    rw [tokenize_eq_nil_iff] at words
    constructor
    · nofun
    · rintro ⟨c, hc, hword⟩
      rw [words c hc] at hword
      cases hword
  · rw [matches_of_tokens h words]
    rw [tokenize_eq_nil_iff] at words
    push Not at words
    simpa using words

/-- The condition is that the search of a listed party finds something. -/
theorem comesToEntry_iff {s : State toLowerCase} {call : Call} {party : Party} {budget : ℕ} :
    ComesToEntry (.search budget) s (.searching call party) ↔
      (s.Listed call party → scan (call.name party) s.sanctionCache budget ≠ []) := by
  refine forall_congr' fun _ => ?_
  have found : scan (call.name party) s.sanctionCache budget ≠ [] ↔
      ∃ cached ∈ s.reached budget,
        threshold.le (calculateMatchScore (call.name party) cached) = true := by
    rw [Ne, scan_eq_nil_iff]
    push Not
    simp only [Bool.not_eq_false]
    rfl
  rw [found]
  constructor
  · rintro (⟨words, cached, hcached, same⟩ | ⟨cached, hcached, -, hmatch⟩)
    · exact ⟨cached, hcached, (matches_iff same).2 words⟩
    · exact ⟨cached, hcached, hmatch⟩
  · rintro ⟨cached, hcached, hmatch⟩
    by_cases same : cached.normalizedName = normalizeName toLowerCase (call.name party)
    · exact Or.inl ⟨(matches_iff same).1 hmatch, cached, hcached, same⟩
    · exact Or.inr ⟨cached, hcached, same, hmatch⟩

theorem sortHits_isEmpty (hits : List Hit) : (sortHits hits).isEmpty = hits.isEmpty := by
  have same := (List.perm_insertionSort (fun a b : Hit => !a.score.lt b.score) hits).length_eq
  unfold sortHits
  cases hits with
  | nil => rfl
  | cons hit hits =>
    rw [List.isEmpty_cons, List.isEmpty_eq_false_iff]
    intro hnil
    rw [hnil] at same
    cases same

/-! ## Turns -/

/-- A search for the party has found nothing. -/
def State.Missed (s : State toLowerCase) (call : Call) (party : Party) : Prop :=
  ∃ screening ∈ s.screenings,
    screening.call = call ∧ screening.party = party ∧ screening.matched = false

def Phase.Sound (s : State toLowerCase) : Phase → Prop
  | .ensuring call .receiver | .querying call .receiver _ | .caching call .receiver _ _
  | .searching call .receiver => s.Missed call .sender
  | .resolved call => ∀ party, s.Missed call party
  | _ => True

def State.Found (s : State toLowerCase) : Prop :=
  ∀ screening ∈ s.screenings, screening.listed = true → screening.matched = true

instance (s : State toLowerCase) : Decidable s.Found :=
  inferInstanceAs (Decidable (∀ screening ∈ s.screenings, _ → _))

section Steps

variable {s s' : State toLowerCase} {input : Input} {phase : Phase}

theorem Phase.Sound.mono (h : phase.Sound s)
    (more : ∀ screening ∈ s.screenings, screening ∈ s'.screenings) : phase.Sound s' := by
  have missed : ∀ {call : Call} {party : Party}, s.Missed call party → s'.Missed call party :=
    fun ⟨screening, hmem, hrest⟩ => ⟨screening, more screening hmem, hrest⟩
  cases phase with
  | ensuring call party | querying call party | caching call party | searching call party =>
    cases party with
    | sender => exact trivial
    | receiver => exact missed h
  | resolved call => exact fun party => missed (h party)
  | _ => exact trivial

/-- A turn adds the search that it makes. -/
theorem screenings_step (input : Input) (s : State toLowerCase) (phase : Phase) :
    ((step input s phase).1.screenings = s.screenings ∧ ComesToEntry input s phase) ∨
      ∃ budget call party, input = .search budget ∧ phase = .searching call party ∧
        (step input s phase).1.screenings = s.screenings ++ [⟨call, party, s.Listed call party,
          !(scan (call.name party) s.sanctionCache budget).isEmpty⟩] := by
  cases input with
  | search budget =>
    cases phase with
    | searching call party =>
      refine Or.inr ⟨budget, call, party, rfl, rfl, ?_⟩
      simp only [step, searchSanctionsWithLevenshtein, sortHits_isEmpty]
    | _ => exact Or.inl ⟨rfl, trivial⟩
  | turn answer =>
    refine Or.inl ⟨?_, trivial⟩
    cases phase with
    | updating entities clears =>
      simp only [step, turn]
      split_ifs <;> rfl
    | _ => rfl
  | _ => exact Or.inl ⟨rfl, trivial⟩

theorem mem_screenings_step (input : Input) (s : State toLowerCase) (phase : Phase) :
    ∀ screening ∈ s.screenings, screening ∈ (step input s phase).1.screenings := by
  intro screening hmem
  rcases screenings_step input s phase with ⟨same, -⟩ | ⟨_, _, _, -, -, more⟩
  · rw [same]
    exact hmem
  · rw [more]
    exact List.mem_append_left _ hmem

/-- A search that finds nothing is the end of its party's part of the call. -/
theorem search_sound {budget : ℕ} {call : Call} {party : Party}
    (hphase : (Phase.searching call party).Sound s) :
    (searchSanctionsWithLevenshtein budget s call party).2.Sound
      (searchSanctionsWithLevenshtein budget s call party).1 := by
  cases hfound : sortHits (scan (call.name party) s.sanctionCache budget) with
  | cons top rest =>
    simp only [searchSanctionsWithLevenshtein, hfound]
    exact trivial
  | nil =>
    have missed : (searchSanctionsWithLevenshtein budget s call party).1.Missed call party := by
      refine ⟨⟨call, party, s.Listed call party, false⟩, ?_, rfl, rfl, rfl⟩
      simp only [searchSanctionsWithLevenshtein, hfound]
      exact List.mem_append_right _ (List.mem_singleton.2 rfl)
    cases party with
    | sender =>
      simp only [searchSanctionsWithLevenshtein, hfound] at missed ⊢
      exact missed
    | receiver =>
      have former : s.Missed call .sender := hphase
      obtain ⟨screening, hmem, hrest⟩ := former
      simp only [searchSanctionsWithLevenshtein, hfound] at missed ⊢
      intro party
      cases party with
      | sender => exact ⟨screening, List.mem_append_left _ hmem, hrest⟩
      | receiver => exact missed

theorem turn_sound {answer : DbAnswer} (hphase : phase.Sound s) :
    (turn answer s phase).2.Sound (turn answer s phase).1 := by
  cases phase with
  | ensuring call party =>
    simp only [turn, ensureCacheInitialized]
    cases party with
    | sender => split_ifs <;> exact trivial
    | receiver => split_ifs <;> exact hphase
  | querying call party asked =>
    simp only [turn]
    cases party with
    | sender => split_ifs <;> exact trivial
    | receiver =>
      split_ifs
      · exact hphase
      · exact trivial
  | caching call party asked rows =>
    cases party with
    | sender => exact trivial
    | receiver => exact hphase
  | updating entities clears =>
    simp only [turn]
    split_ifs <;> exact trivial
  | clearing => exact trivial
  | _ => exact hphase

theorem step_sound (hphase : phase.Sound s) :
    (step input s phase).2.Sound (step input s phase).1 := by
  cases input with
  | search budget =>
    cases phase with
    | searching call party => exact search_sound hphase
    | _ => exact hphase
  | turn answer => exact turn_sound hphase
  | checkParties | updateSanctionListBatch | updateSanctionList =>
    simp only [step]
    split_ifs <;> first | exact trivial | exact hphase
  | write | elapse => exact hphase.mono fun _ h => h

/-- A turn keeps the law exactly when its search comes to an entry. -/
theorem found_step_iff (h : s.Found) :
    (step input s phase).1.Found ↔ ComesToEntry input s phase := by
  rcases screenings_step input s phase with ⟨same, idle⟩ | ⟨budget, call, party, rfl, rfl, more⟩
  · refine iff_of_true ?_ idle
    unfold State.Found
    rw [same]
    exact h
  · rw [comesToEntry_iff]
    unfold State.Found
    rw [more]
    constructor
    · intro found listed
      have matched := found _ (List.mem_append_right _ (List.mem_singleton.2 rfl))
        (decide_eq_true listed)
      simpa using matched
    · intro comes screening hmem
      rcases List.mem_append.1 hmem with hmem | hmem
      · exact h screening hmem
      · rw [List.mem_singleton.1 hmem]
        intro listed
        simpa using comes (of_decide_eq_true listed)

end Steps

/-! ## Runs -/

variable [DecidableEq ι]

/-- No search for a listed party finds nothing exactly when all of them come to an entry. -/
theorem screening_complete_iff (schedule : List (ι × Input)) :
    (∀ pre, pre <+: schedule →
        Complete (run step (World.init toLowerCase : World toLowerCase ι) pre)) ↔
      Runs.Every (advance step) (fun w turn => ComesToEntry turn.2 w.shared (w.locals turn.1))
        (World.init toLowerCase : World toLowerCase ι) schedule := by
  refine Runs.forall_prefix_iff_every_of_inv Complete (fun w : World toLowerCase ι =>
    w.shared.Found ∧ ∀ i, (w.locals i).Sound w.shared) ?_ ?_ ?_ ?_ schedule
  · rintro w ⟨found, sound⟩
    refine ⟨found, ?_⟩
    intro i call hphase party
    have missed := sound i
    rw [hphase] at missed
    obtain ⟨screening, hmem, hcall, hparty, hmatched⟩ := missed party
    refine ⟨screening, hmem, hcall, hparty, ?_⟩
    by_contra hlisted
    rw [Bool.not_eq_false] at hlisted
    rw [found screening hmem hlisted] at hmatched
    cases hmatched
  · rintro w ⟨i, input⟩ ⟨found, sound⟩ comes
    refine ⟨(found_step_iff found).2 comes, ?_⟩
    exact locals_advance step _ (step_sound (sound i)) fun j _ =>
      (sound j).mono (mem_screenings_step input w.shared (w.locals i))
  · rintro w ⟨i, input⟩ ⟨found, -⟩ complete
    exact (found_step_iff found).1 complete.found
  · exact ⟨nofun, fun _ => trivial⟩

def asciiLower (name : JsString) : JsString :=
  name.map fun c => if 65 ≤ c && c ≤ 90 then c + 32 else c

/-- `Ada`, and `" ADA"` for a party. -/
def ada : JsString := [65, 100, 97]

def adaParty : JsString := [32, 65, 68, 65]

def bob : JsString := [66, 111, 98]

/-- Two Han characters. -/
def han : JsString := [0x674e, 0x56db]

def listedAs (name : JsString) (externalId : String) : SanctionEntity :=
  ⟨name, none, "UN", some "Individual", some externalId⟩

def updateBatch (entities : List SanctionEntity) : List (ℕ × Input) :=
  [(0, .updateSanctionListBatch entities), (0, .turn .answered)]

/-- A call that finds the cache to be filled, if `refreshes`, and whose searches are over after
`budget` more entries than one. -/
def callOf (i : ℕ) (senderName : JsString) (refreshes : Bool) (budget : ℕ) :
    List (ℕ × Input) :=
  [(i, .checkParties senderName bob), (i, .turn .answered)] ++
    (if refreshes then [(i, .turn .answered), (i, .turn .answered)] else []) ++
    [(i, .search budget), (i, .turn .answered), (i, .search budget)]

/-- With a cache that is older than the update, a search that ends before the entry or a name in
another script, a call with a listed sender resolves. -/
theorem listed_sender_resolves :
    let stale := run step (World.init asciiLower : World asciiLower ℕ)
      (callOf 1 bob true 5 ++ updateBatch [listedAs ada "1"] ++ callOf 2 adaParty false 5)
    let truncated := run step (World.init asciiLower : World asciiLower ℕ)
      (updateBatch [listedAs han "1", listedAs ada "2"] ++ callOf 2 adaParty true 0)
    let foreign := run step (World.init asciiLower : World asciiLower ℕ)
      (updateBatch [listedAs han "1", listedAs ada "2"] ++ callOf 2 han true 5)
    let fresh := run step (World.init asciiLower : World asciiLower ℕ)
      (updateBatch [listedAs han "1", listedAs ada "2"] ++ callOf 2 adaParty true 5)
    ¬ Complete stale ∧ ¬ Complete truncated ∧ ¬ Complete foreign ∧
      stale.locals 2 = .resolved ⟨adaParty, bob, [[97, 100, 97]]⟩ ∧
      foreign.locals 2 = .resolved ⟨han, bob, [han, [97, 100, 97]]⟩ ∧
      fresh.locals 2 = .blocked ⟨adaParty, bob, [han, [97, 100, 97]]⟩
        ⟨.sender, adaParty, ada, one, "UN"⟩ := by
  intro stale truncated foreign fresh
  refine ⟨fun complete => ?_, fun complete => ?_, fun complete => ?_, by decide +kernel,
    by decide +kernel, by decide +kernel⟩
  · exact absurd complete.found (by decide +kernel)
  · exact absurd complete.found (by decide +kernel)
  · exact absurd complete.found (by decide +kernel)

end MobileMoney.Sanctions
