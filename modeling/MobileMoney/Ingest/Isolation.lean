import MobileMoney.Ingest.Program
import MobileMoney.Library.Ownership

/-!
# The isolation of concurrent callbacks

A parser that has been put back may be taken by another request, and its parse writes over the
strings that the first one has still to validate, to publish and to acknowledge. A request that is
held has its parser to itself; the rest depends on what the next parses leave of its strings.
-/

namespace MobileMoney.Ingest

open Interleaving

variable {M ι : Type} (env : Env M) {s : Shared} {request : Request M} {body : Bytes}

/-! ## The law -/

/-- The fields of a body, as they are parsed. -/
def fieldsOf (body : Bytes) : Option (CallbackPayload Bytes M) :=
  (parseCallbackPayload env (env.parseBytes body)).map fun payload =>
    payload.read (env.parseBytes body).content

/-- What a request with this body has to publish. -/
structure Own (body : Bytes) (fields : CallbackPayload Bytes M) (data : Bytes) : Prop where
  parsed : fieldsOf env body = some fields
  valid : fields.validate env = none
  marshaled : env.marshal fields = some data

/-- A request publishes and acknowledges the fields of its body, and is accepted only with them. -/
structure Isolated (body : Bytes) (request : Request M) : Prop where
  added : ∀ entry ∈ request.added, ∃ fields data, Own env body fields data ∧
    entry = streamEntry fields data
  published : ∀ message ∈ request.published, ∃ fields, Own env body fields message
  accepted : ∀ reference, request.stage = .answered (.accepted reference) →
    ∃ fields data, Own env body fields data ∧ reference = fields.reference ∧
      (env.redisEnabled = true → streamEntry fields data ∈ request.added) ∧
      (env.natsEnabled = true → data ∈ request.published)

def Stage.parsing? : Stage M → Option ℕ
  | .taken parser => some parser
  | _ => none

theorem parsing?_eq_some {stage : Stage M} {parser : ℕ} :
    stage.parsing? = some parser ↔ stage = .taken parser := by
  cases stage <;> simp [Stage.parsing?]

/-- The payload that is still to be read, after its parser has been put back. -/
def Stage.reading? : Stage M → Option (ℕ × Payload M × Point)
  | .released parser payload point => some (parser, payload, point)
  | _ => none

/-- The fields are the same, as far as they are still to be read. -/
def Point.Same (fields fields' : CallbackPayload Bytes M) : Point → Prop
  | .validate | .marshal => fields = fields'
  | .xAdd _ => fields.eventType = fields'.eventType ∧ fields.provider = fields'.provider ∧
      fields.reference = fields'.reference
  | .natsPublish _ | .respond _ => fields.reference = fields'.reference

instance [DecidableEq M] (fields fields' : CallbackPayload Bytes M) :
    ∀ point : Point, Decidable (point.Same fields fields')
  | .validate | .marshal => inferInstanceAs (Decidable (fields = fields'))
  | .xAdd _ => inferInstanceAs (Decidable (_ ∧ _ ∧ _))
  | .natsPublish _ | .respond _ => inferInstanceAs (Decidable (_ = _))

/-- A parse leaves what the other requests have still to read as it is. -/
def Careful (w : World Shared ι (Request M)) (turn : ι × Input) : Prop :=
  ∀ parser ∈ (w.locals turn.1).stage.parsing?,
    ∀ j, ∀ reader ∈ (w.locals j).stage.reading?, reader.1 = parser →
      reader.2.2.Same (reader.2.1.read ((env.parseBytes (w.locals turn.1).body).overwrite
        (w.shared.buffers parser))) (reader.2.1.read (w.shared.buffers parser))

instance [DecidableEq M] [Fintype ι] (w : World Shared ι (Request M)) (turn : ι × Input) :
    Decidable (Careful env w turn) :=
  inferInstanceAs (Decidable (∀ parser ∈ (w.locals turn.1).stage.parsing?,
    ∀ j, ∀ reader ∈ (w.locals j).stage.reading?, reader.1 = parser → reader.2.2.Same _ _))

/-! ## The strings of a parse -/

theorem read_overwrite (parsed : Parsed) {slice : Slice}
    (within : slice.offset + slice.length ≤ parsed.content.length) (buffer : Bytes) :
    slice.read (parsed.overwrite buffer) = slice.read parsed.content := by
  have hoffset : slice.offset ≤ parsed.content.length := by omega
  have hlength : slice.length ≤ (parsed.content.drop slice.offset).length := by
    rw [List.length_drop]
    omega
  rw [Slice.read, Parsed.overwrite, List.drop_append_of_le_length hoffset,
    List.take_append_of_le_length hlength]
  rfl

theorem readString_overwrite {parsed : Parsed} {v : Value} (hv : parsed.value = some v)
    {key : String} {string : Option Slice} (h : getStringFieldOptimized v key = some string)
    (buffer : Bytes) :
    readString (parsed.overwrite buffer) string = readString parsed.content string := by
  unfold getStringFieldOptimized at h
  split at h
  · rename_i slice hget
    obtain rfl := Option.some.inj h
    obtain ⟨field, hfound, hentry⟩ := Option.map_eq_some_iff.1 hget
    have within := parsed.within v hv field (List.mem_of_find?_eq_some hfound) slice
      (by rw [hentry]; rfl)
    exact read_overwrite parsed within buffer
  · obtain rfl := Option.some.inj h
    rfl
  · cases h

/-- In the buffer that it has just been parsed into, a payload is that of the body. -/
theorem read_of_parse {parsed : Parsed} {payload : Payload M}
    (h : parseCallbackPayload env parsed = some payload) (buffer : Bytes) :
    payload.read (parsed.overwrite buffer) = payload.read parsed.content := by
  simp only [parseCallbackPayload, Option.bind_eq_bind, Option.bind_eq_some_iff] at h
  obtain ⟨v, hv, eventType, heventType, provider, hprovider, reference, hreference, currency,
    hcurrency, status, hstatus, timestamp, htimestamp, amount, -, metadata, -, hpayload⟩ := h
  obtain rfl := Option.some.inj hpayload
  simp only [CallbackPayload.read, CallbackPayload.map, readString_overwrite hv heventType,
    readString_overwrite hv hprovider, readString_overwrite hv hreference,
    readString_overwrite hv hcurrency, readString_overwrite hv hstatus,
    readString_overwrite hv htimestamp]

/-! ## The parsers -/

def Stage.holds? : Stage M → Option ℕ
  | .taken parser | .parsed parser _ => some parser
  | _ => none

/-- A parser is held by one request, or it is in the pool once, or it has not been made. -/
def InOnePlace (parser : ℕ) (w : World Shared ι (Request M)) : Prop :=
  Exclusive (fun request => request.stage.holds? = some parser)
    (fun s => s.pool.count parser = if parser < s.created then 1 else 0)
    (fun s request => request.stage.holds? = some parser ∧ s.pool.count parser = 0 ∧
      (if parser < s.created then 1 else 0) = 1) w

theorem get_cases (s : Shared) (choice : Option ℕ) :
    (∃ parser ∈ s.pool, s.get choice = ({ s with pool := s.pool.erase parser }, parser)) ∨
      s.get choice = ({ s with created := s.created + 1 }, s.created) := by
  unfold Shared.get
  cases hchoice : choice.filter (· ∈ s.pool) with
  | none => exact .inr rfl
  | some parser =>
    have hmem : parser ∈ s.pool := by simpa using (Option.filter_eq_some_iff.1 hchoice).2
    exact .inl ⟨parser, hmem, rfl⟩

theorem get_balanced (parser : ℕ) (s : Shared) (choice : Option ℕ) :
    (if (s.get choice).2 = parser then 1 else 0) + (s.get choice).1.pool.count parser +
        (if parser < s.created then 1 else 0) =
      s.pool.count parser + if parser < (s.get choice).1.created then 1 else 0 := by
  rcases get_cases s choice with ⟨taken, hmem, hget⟩ | hget
  · have hpos := List.count_pos_iff.2 hmem
    simp only [hget, List.count_erase, beq_iff_eq]
    by_cases hparser : taken = parser
    · subst hparser
      simp only [if_true]
      omega
    · simp [hparser]
  · simp only [hget]
    split_ifs <;> omega

theorem holds_proceed (delivery : Delivery) (request : Request M) (parser : ℕ)
    (payload : Payload M) (fields : CallbackPayload Bytes M) (point : Point) :
    (proceed env delivery request parser payload fields point).stage.holds? = none := by
  cases point with
  | validate =>
    simp only [proceed]
    split <;> rfl
  | marshal =>
    simp only [proceed]
    split <;> rfl
  | xAdd data =>
    simp only [proceed]
    split_ifs <;> rfl
  | natsPublish data =>
    simp only [proceed]
    split_ifs <;> rfl
  | respond data => rfl

/-- What a turn takes from the pool or makes, it holds; what it lets go, is in the pool. -/
theorem step_balanced (parser : ℕ) (input : Input) (s : Shared) (request : Request M) :
    (if (step env input s request).2.stage.holds? = some parser then 1 else 0) +
        (step env input s request).1.pool.count parser + (if parser < s.created then 1 else 0) =
      (if request.stage.holds? = some parser then 1 else 0) + s.pool.count parser +
        if parser < (step env input s request).1.created then 1 else 0 := by
  obtain ⟨body, stage, added, published⟩ := request
  cases stage with
  | arrived =>
    have balanced := get_balanced parser s input.parser
    simp only [step, Stage.holds?, Option.some.injEq, reduceCtorEq, if_false, Nat.zero_add]
    exact balanced
  | taken held => rfl
  | parsed held payload =>
    have put : 0 + (held :: s.pool).count parser =
        (if some held = some parser then 1 else 0) + s.pool.count parser := by
      simp only [List.count_cons, beq_iff_eq, Option.some.injEq]
      omega
    have balanced := congrArg (· + if parser < s.created then 1 else 0) put
    cases payload with
    | none => exact balanced
    | some payload => exact balanced
  | released held payload point =>
    simp only [step, holds_proceed]
    rfl
  | answered response => rfl

theorem created_step (input : Input) (s : Shared) (request : Request M) :
    s.created ≤ (step env input s request).1.created := by
  obtain ⟨body, stage, added, published⟩ := request
  cases stage with
  | arrived =>
    show s.created ≤ (s.get input.parser).1.created
    rcases get_cases s input.parser with ⟨taken, -, hget⟩ | hget
    · exact (congrArg (·.1.created) hget).ge
    · rw [hget]
      exact Nat.le_succ s.created
  | taken held => exact Nat.le_refl _
  | parsed held payload => cases payload <;> exact Nat.le_refl _
  | released held payload point => exact Nat.le_refl _
  | answered response => exact Nat.le_refl _

theorem inOnePlace_advance [DecidableEq ι] {parser : ℕ} {w : World Shared ι (Request M)}
    (h : InOnePlace parser w) (turn : ι × Input) :
    InOnePlace parser (advance (step env) w turn) := by
  have grows := created_step env turn.2 w.shared (w.locals turn.1)
  refine exclusive_advance_of_balance h ?_ ?_ (step_balanced env parser turn.2 _ _)
  · split_ifs <;> omega
  · split_ifs <;> omega

/-! ## What a request has reached -/

/-- What is known of the fields before each step. -/
def Reached (body : Bytes) (request : Request M) (fields : CallbackPayload Bytes M) :
    Point → Prop
  | .validate => True
  | .marshal => fields.validate env = none
  | .xAdd data => Own env body fields data
  | .natsPublish data => Own env body fields data ∧
      (env.redisEnabled = true → streamEntry fields data ∈ request.added)
  | .respond data => Own env body fields data ∧
      (env.redisEnabled = true → streamEntry fields data ∈ request.added) ∧
      (env.natsEnabled = true → data ∈ request.published)

/-- The payload of a request is still that of its body. -/
def Kept (s : Shared) (body : Bytes) (request : Request M) : Stage M → Prop
  | .parsed parser payload =>
    payload.map (fun payload => payload.read (s.buffers parser)) = fieldsOf env body
  | .released parser payload point => ∃ fields, fieldsOf env body = some fields ∧
      Reached env body request fields point ∧ point.Same (payload.read (s.buffers parser)) fields
  | .arrived | .taken _ | .answered _ => True

structure InStep (body : Bytes) (s : Shared) (request : Request M) : Prop where
  carries : request.body = body
  isolated : Isolated env body request
  kept : Kept env s body request request.stage

variable {env}

theorem Point.Same.refl {fields : CallbackPayload Bytes M} :
    ∀ point : Point, point.Same fields fields
  | .validate | .marshal | .natsPublish _ | .respond _ => rfl
  | .xAdd _ => ⟨rfl, rfl, rfl⟩

theorem Point.Same.trans {fields fields' fields'' : CallbackPayload Bytes M} :
    ∀ {point : Point}, point.Same fields fields' → point.Same fields' fields'' →
      point.Same fields fields''
  | .validate, h, h' | .marshal, h, h' => Eq.trans h h'
  | .xAdd _, ⟨he, hp, hr⟩, ⟨he', hp', hr'⟩ => ⟨he.trans he', hp.trans hp', hr.trans hr'⟩
  | .natsPublish _, h, h' | .respond _, h, h' => Eq.trans h h'

theorem InStep.of_read {s' : Shared} (h : InStep env body s request)
    (held : ∀ parser payload, request.stage = .parsed parser (some payload) →
      payload.read (s'.buffers parser) = payload.read (s.buffers parser))
    (reading : ∀ parser payload point, request.stage = .released parser payload point →
      point.Same (payload.read (s'.buffers parser)) (payload.read (s.buffers parser))) :
    InStep env body s' request := by
  refine ⟨h.carries, h.isolated, ?_⟩
  have kept := h.kept
  cases hstage : request.stage with
  | arrived => trivial
  | taken parser => trivial
  | parsed parser payload =>
    rw [hstage] at kept
    cases payload with
    | none => exact kept
    | some payload =>
      rw [Kept, Option.map_some, held parser payload hstage]
      exact kept
  | released parser payload point =>
    rw [hstage] at kept
    obtain ⟨fields, parsed, reached, same⟩ := kept
    exact ⟨fields, parsed, reached, (reading parser payload point hstage).trans same⟩
  | answered response => trivial

theorem Isolated.answer (h : Isolated env body request) {stage : Stage M}
    (hstage : ∀ reference, stage ≠ .answered (.accepted reference)) :
    Isolated env body { request with stage := stage } :=
  ⟨h.added, h.published, fun reference haccepted => absurd haccepted (hstage reference)⟩

theorem count_pos {delivery : Delivery} (h : delivery.ok = true) : delivery.count ≠ 0 := by
  simp [Delivery.count, h]

variable {fields : CallbackPayload Bytes M} {parser : ℕ} {payload : Payload M} {data : Bytes}

/-- After its message to the stream has been sent, whatever becomes of it. -/
theorem inStep_xAdd (h : InStep env body s request) (own : Own env body fields data)
    (same : (Point.xAdd data).Same (payload.read (s.buffers parser)) fields)
    (delivery : Delivery) :
    InStep env body s (proceed env delivery request parser payload
      (payload.read (s.buffers parser)) (.xAdd data)) := by
  have entry : streamEntry (payload.read (s.buffers parser)) data = streamEntry fields data := by
    rw [streamEntry, same.1, same.2.1, same.2.2]
    rfl
  rw [proceed, entry]
  by_cases hredis : env.redisEnabled = true
  · rw [if_pos hredis]
    refine ⟨h.carries, ⟨?_, h.isolated.published, ?_⟩, ?_⟩
    · intro entry hentry
      rcases List.mem_append.1 hentry with hbefore | hnew
      · exact h.isolated.added entry hbefore
      · exact ⟨fields, data, own, List.eq_of_mem_replicate hnew⟩
    · intro reference haccepted
      dsimp only at haccepted
      split_ifs at haccepted
      cases haccepted
    · dsimp only
      split_ifs with hok
      · refine ⟨fields, own.parsed, ⟨own, fun _ => List.mem_append_right _ ?_⟩, same.2.2⟩
        exact List.mem_replicate.2 ⟨count_pos hok, rfl⟩
      · trivial
  · rw [if_neg hredis]
    refine ⟨h.carries, h.isolated.answer nofun, fields, own.parsed, ⟨own, ?_⟩, same.2.2⟩
    exact fun henabled => absurd henabled hredis

theorem inStep_natsPublish (h : InStep env body s request) (own : Own env body fields data)
    (hadded : env.redisEnabled = true → streamEntry fields data ∈ request.added)
    (same : (Point.natsPublish data).Same (payload.read (s.buffers parser)) fields)
    (delivery : Delivery) :
    InStep env body s (proceed env delivery request parser payload
      (payload.read (s.buffers parser)) (.natsPublish data)) := by
  rw [proceed]
  by_cases hnats : env.natsEnabled = true
  · rw [if_pos hnats]
    refine ⟨h.carries, ⟨h.isolated.added, ?_, ?_⟩, ?_⟩
    · intro message hmessage
      rcases List.mem_append.1 hmessage with hbefore | hnew
      · exact h.isolated.published message hbefore
      · rw [List.eq_of_mem_replicate hnew]
        exact ⟨fields, own⟩
    · intro reference haccepted
      dsimp only at haccepted
      split_ifs at haccepted
      cases haccepted
    · dsimp only
      split_ifs with hok
      · refine ⟨fields, own.parsed, ⟨own, hadded, fun _ => List.mem_append_right _ ?_⟩, same⟩
        exact List.mem_replicate.2 ⟨count_pos hok, rfl⟩
      · trivial
  · rw [if_neg hnats]
    refine ⟨h.carries, h.isolated.answer nofun, fields, own.parsed, ⟨own, hadded, ?_⟩, same⟩
    exact fun henabled => absurd henabled hnats

theorem inStep_proceed {point : Point} (h : InStep env body s request)
    (parsed : fieldsOf env body = some fields) (reached : Reached env body request fields point)
    (same : point.Same (payload.read (s.buffers parser)) fields) (delivery : Delivery) :
    InStep env body s (proceed env delivery request parser payload
      (payload.read (s.buffers parser)) point) := by
  cases point with
  | validate =>
    rw [proceed]
    cases hvalid : (payload.read (s.buffers parser)).validate env with
    | none =>
      have valid : fields.validate env = none := same ▸ hvalid
      exact ⟨h.carries, h.isolated.answer nofun, fields, parsed, valid, same⟩
    | some e => exact ⟨h.carries, h.isolated.answer nofun, trivial⟩
  | marshal =>
    rw [proceed]
    have read : payload.read (s.buffers parser) = fields := same
    cases hmarshal : env.marshal (payload.read (s.buffers parser)) with
    | none => exact ⟨h.carries, h.isolated.answer nofun, trivial⟩
    | some data =>
      rw [read] at hmarshal
      refine ⟨h.carries, h.isolated.answer nofun, fields, parsed, ⟨parsed, reached, hmarshal⟩, ?_⟩
      rw [read]
      exact ⟨rfl, rfl, rfl⟩
  | xAdd data => exact inStep_xAdd h reached same delivery
  | natsPublish data => exact inStep_natsPublish h reached.1 reached.2 same delivery
  | respond data =>
    refine ⟨h.carries, ⟨h.isolated.added, h.isolated.published, ?_⟩, trivial⟩
    intro reference haccepted
    cases haccepted
    exact ⟨fields, data, reached.1, same, reached.2⟩

/-- A turn keeps what is known of the request that takes it. -/
theorem inStep_own (h : InStep env body s request) (input : Input) :
    InStep env body (step env input s request).1 (step env input s request).2 := by
  have kept := h.kept
  unfold step
  cases hstage : request.stage with
  | arrived => exact ⟨h.carries, h.isolated.answer nofun, trivial⟩
  | taken parser =>
    refine ⟨h.carries, h.isolated.answer nofun, ?_⟩
    rw [h.carries]
    dsimp only [Kept, Shared.parse]
    rw [Function.update_self, fieldsOf]
    cases hpayload : parseCallbackPayload env (env.parseBytes body) with
    | none => rfl
    | some payload => exact congrArg some (read_of_parse env hpayload _)
  | parsed parser payload =>
    rw [hstage] at kept
    cases payload with
    | none => exact ⟨h.carries, h.isolated.answer nofun, trivial⟩
    | some payload => exact ⟨h.carries, h.isolated.answer nofun, _, kept.symm, trivial, rfl⟩
  | released parser payload point =>
    rw [hstage] at kept
    obtain ⟨fields, parsed, reached, same⟩ := kept
    exact inStep_proceed h parsed reached same input.delivery
  | answered response =>
    have same := h.isolated
    exact ⟨h.carries, same, by rw [hstage]; trivial⟩

/-! ## Runs -/

variable (env) in
theorem buffers_step {parser : ℕ} (input : Input) (s : Shared) (request : Request M)
    (h : request.stage.parsing? ≠ some parser) :
    (step env input s request).1.buffers parser = s.buffers parser := by
  obtain ⟨body, stage, added, published⟩ := request
  cases stage with
  | arrived =>
    show (s.get input.parser).1.buffers parser = s.buffers parser
    rcases get_cases s input.parser with ⟨taken, -, hget⟩ | hget <;> rw [hget]
  | taken held =>
    have hother : parser ≠ held := fun hparser => h (congrArg some hparser.symm)
    exact Function.update_of_ne hother _ _
  | parsed held payload => cases payload <;> rfl
  | released held payload point => rfl
  | answered response => rfl

variable (env) in
theorem buffers_parse {parser : ℕ} (input : Input) (s : Shared) {request : Request M}
    (h : request.stage = .taken parser) : (step env input s request).1.buffers parser =
      (env.parseBytes request.body).overwrite (s.buffers parser) := by
  rw [step, h]
  exact Function.update_self _ _ _

variable {bodies : ι → Bytes} {w : World Shared ι (Request M)}

/-- A careful turn of another request keeps what is known of a request. -/
theorem inStep_other (places : ∀ parser, InOnePlace parser w) {turn : ι × Input}
    (careful : Careful env w turn) {j : ι} (hj : j ≠ turn.1)
    (h : InStep env body w.shared (w.locals j)) :
    InStep env body (step env turn.2 w.shared (w.locals turn.1)).1 (w.locals j) := by
  apply h.of_read
  · intro parser payload hstage
    have holds : (w.locals j).stage.holds? = some parser := by rw [hstage]; rfl
    have free := ((places parser).owner holds).2 turn.1 (Ne.symm hj)
    have other : (w.locals turn.1).stage.parsing? ≠ some parser := fun hparsing =>
      free (by rw [parsing?_eq_some.1 hparsing]; rfl)
    rw [buffers_step env turn.2 w.shared (w.locals turn.1) other]
  · intro parser payload point hstage
    by_cases hparsing : (w.locals turn.1).stage.parsing? = some parser
    · rw [buffers_parse env turn.2 w.shared (parsing?_eq_some.1 hparsing)]
      exact careful parser hparsing j (parser, payload, point) (by rw [hstage]; rfl) rfl
    · rw [buffers_step env turn.2 w.shared (w.locals turn.1) hparsing]
      exact .refl point

/-- The parsers are in one place each, and every request is in step with its body. -/
structure Sound (env : Env M) (bodies : ι → Bytes) (w : World Shared ι (Request M)) : Prop where
  places : ∀ parser, InOnePlace parser w
  requests : ∀ i, InStep env (bodies i) w.shared (w.locals i)

theorem sound_start (bodies : ι → Bytes) : Sound env bodies (start bodies) :=
  ⟨fun _ => .inl ⟨rfl, fun _ => nofun⟩, fun _ => ⟨rfl, ⟨nofun, nofun, nofun⟩, trivial⟩⟩

variable [DecidableEq ι]

theorem sound_advance (h : Sound env bodies w) {turn : ι × Input} (careful : Careful env w turn) :
    Sound env bodies (advance (step env) w turn) := by
  refine ⟨fun parser => inOnePlace_advance env (h.places parser) turn, fun j => ?_⟩
  by_cases hj : j = turn.1
  · subst hj
    obtain ⟨i, input⟩ := turn
    rw [advance_self]
    exact inStep_own (h.requests i) input
  · obtain ⟨i, input⟩ := turn
    rw [advance_other (step env) w input hj]
    exact inStep_other h.places careful hj (h.requests j)

/-- For every order of the steps of any number of requests: where no parse changes a string that
another request has still to read, every request publishes and acknowledges the fields of its own
body, and it is accepted only when it has published them. -/
theorem requests_isolated (env : Env M) (bodies : ι → Bytes) (schedule : List (ι × Input))
    (careful : Runs.Every (advance (step env)) (Careful env) (start bodies) schedule) :
    ∀ pre, pre <+: schedule → ∀ i,
      Isolated env (bodies i) ((run (step env) (start bodies) pre).locals i) := by
  intro pre hprefix i
  have sound : Sound env bodies (run (step env) (start bodies) pre) :=
    inv_run_of_every (Sound env bodies) (fun _ _ h hcareful => sound_advance h hcareful)
      (sound_start bodies) (careful.of_prefix hprefix)
  exact (sound.requests i).isolated

/-! ## Two callbacks and one parser -/

section Instances

/-- A callback as `json.Marshal` writes it. -/
def json (eventType provider reference currency status timestamp : Bytes) : Bytes :=
  ascii "\x7b\"event_type\":\"" ++ eventType ++ ascii "\",\"provider\":\"" ++ provider ++
    ascii "\",\"reference\":\"" ++ reference ++ ascii "\",\"amount\":5,\"currency\":\"" ++
    currency ++ ascii "\",\"status\":\"" ++ status ++ ascii "\",\"timestamp\":\"" ++
    timestamp ++ ascii "\"\x7d"

def newYear : Bytes := ascii "2026-01-01T00:00:00Z"

def callback (reference : String) : Bytes :=
  json (ascii "paid") (ascii "mtn") (ascii reference) (ascii "XAF") (ascii "success") newYear

/-- Where the fields are in a callback with a reference of two letters. -/
def callbackFields : List (String × Entry) :=
  [("event_type", .string ⟨15, 4⟩), ("provider", .string ⟨33, 3⟩), ("reference", .string ⟨51, 2⟩),
    ("amount", .number (.ofRat 5)), ("currency", .string ⟨78, 3⟩), ("status", .string ⟨93, 7⟩),
    ("timestamp", .string ⟨115, 20⟩)]

theorem callbackFields_within {body : Bytes} (h : body = callback "T1" ∨ body = callback "T2") :
    ∀ v ∈ some (Value.mk callbackFields none), ∀ field ∈ v.fields, ∀ slice ∈ field.2.slice?,
      slice.offset + slice.length ≤ body.length := by
  have hlength : body.length = 137 := by
    rcases h with rfl | rfl <;> decide +kernel
  rw [hlength]
  intro v hv
  cases hv
  decide

/-- The libraries, as far as these callbacks go. -/
def service : Env Bytes where
  parseBytes body :=
    if h : body = callback "T1" ∨ body = callback "T2" then
      ⟨body, some ⟨callbackFields, none⟩, callbackFields_within h⟩
    else ⟨body, none, nofun⟩
  parseFloat _ := none
  unmarshal := some
  marshal p :=
    if p.amount = .ofRat 5 then
      some (json p.eventType p.provider p.reference p.currency p.status p.timestamp)
    else none
  isRFC3339 text := text = newYear
  redisEnabled := true
  natsEnabled := false

def twoBodies (i : Fin 2) : Bytes := callback (if i = 0 then "T1" else "T2")

/-- A turn where everything goes well. -/
def turn (i : Fin 2) : Fin 2 × Input := (i, ⟨some 0, ⟨0, true⟩⟩)

/-- From the parser to the answer. -/
def handled (i : Fin 2) : List (Fin 2 × Input) := List.replicate 8 (turn i)

theorem requests_isolated_in_turn :
    let w := run (step service) (start twoBodies) (handled 0 ++ handled 1)
    w.shared.created = 1 ∧ (w.locals 1).stage = .answered (.accepted (ascii "T2")) ∧
      ∀ i, Isolated service (twoBodies i) (w.locals i) := by
  intro w
  have reached : w.shared.created = 1 ∧
      (w.locals 1).stage = .answered (.accepted (ascii "T2")) := by
    decide +kernel
  exact ⟨reached.1, reached.2, requests_isolated service twoBodies (handled 0 ++ handled 1)
    (by decide +kernel) _ (List.prefix_refl _)⟩

/-- The second request takes the parser after the first one has put it back, and parses before the
first one goes on. -/
def overlapping : List (Fin 2 × Input) :=
  List.replicate 3 (turn 0) ++ List.replicate 2 (turn 1) ++ List.replicate 5 (turn 0)

/-- The first callback is published and acknowledged as the second one. -/
theorem parser_shared :
    let w := run (step service) (start twoBodies) overlapping
    (w.locals 0).added = [⟨ascii "paid", ascii "mtn", ascii "T2", callback "T2"⟩] ∧
      ¬ Isolated service (twoBodies 0) (w.locals 0) := by
  have reached : ((run (step service) (start twoBodies) overlapping).locals 0).added =
        [⟨ascii "paid", ascii "mtn", ascii "T2", callback "T2"⟩] ∧
      ((run (step service) (start twoBodies) overlapping).locals 0).stage =
        .answered (.accepted (ascii "T2")) := by
    decide +kernel
  obtain ⟨added, accepted⟩ := reached
  refine ⟨added, fun isolated => ?_⟩
  obtain ⟨fields, data, own, hreference, -⟩ := isolated.accepted _ accepted
  have sent : (fieldsOf service (twoBodies 0)).map (·.reference) = some (ascii "T1") := by
    decide +kernel
  rw [own.parsed, Option.map_some, ← hreference] at sent
  exact absurd sent (by decide)

end Instances

end MobileMoney.Ingest
