import Mathlib.Algebra.BigOperators.Group.List.Basic
import Mathlib.Data.List.Dedup
import Mathlib.Data.List.Lex
import Mathlib.Data.List.Sort
import MobileMoney.Encryption.Rotation
import MobileMoney.Library.Checked
import MobileMoney.Library.Digits
import MobileMoney.Library.Keyed

/-!
# Signed webview URLs

`utils/sep24Signature.ts`. HMAC-SHA256 is ideal, on texts that are left of a text in UTF-8. Writing
the parameters of a URL and parsing them as a query is a parameter, of which it is known what it
does with few plain names. Time is in seconds.

The signer joins what it was given, the verifier the parameters that are strings: the rest of an
accepted query can be anything.
-/

namespace MobileMoney.Sep24.SignedUrl

open Json Encryption Checked

structure Config where
  WEBVIEW_SIGNING_SECRET : Option Text
  WEBVIEW_URL_EXPIRATION_SECONDS : ℕ

def Config.secret (config : Config) : Option Text :=
  config.WEBVIEW_SIGNING_SECRET.filter (· ≠ [])

structure Hmac where
  digest : Text → Text → List UInt8
  injective (secret : Text) : Function.Injective (digest secret)
  digest_ne_nil (secret data : Text) : digest secret data ≠ []

variable (config : Config) (hmac : Hmac)

/-! ## Signing -/

/-- A property may be there and be undefined. -/
abbrev Sep24UrlParams := Keyed (Prod.fst : Text × Option Text → Text)

/-- What a template makes of a property. -/
def written (value : Option Text) : Text := value.getD (text "undefined")

def equals : ℕ := '='.toNat

def ampersand : ℕ := '&'.toNat

def Sep24UrlParams.get (params : Sep24UrlParams) (key : Text) : Option Text :=
  (params.find? key).bind (·.2)

def sortedKeys (params : Sep24UrlParams) : List Text :=
  (params.rows.map (·.1)).insertionSort (· ≤ ·)

def canonicalString (params : Sep24UrlParams) : Text :=
  List.intercalate [ampersand]
    ((sortedKeys params).map fun key => key ++ equals :: written (params.get key))

/-- The parameters of a URL; the rest of it does not change. -/
structure Url where
  searchParams : List (Text × Text)

/-- Lone surrogates are replaced. -/
def Url.append (url : Url) (name value : Text) : Url :=
  ⟨url.searchParams ++ [(wellFormed name, wellFormed value)]⟩

/-- Undefined values are left out. -/
def Url.appendDefined (url : Url) : Text × Option Text → Url
  | (key, some value) => url.append key value
  | (_, none) => url

def withExpiration (params : Sep24UrlParams) (expiration : ℕ) : Sep24UrlParams :=
  params.put (text "exp", some (text (toString expiration)))

def generateSignedSep24Url (baseUrl : Url) (params : Sep24UrlParams) (now : ℕ) :
    Except String Url := do
  let secret ← orFail config.secret
    "WEBVIEW_SIGNING_SECRET is not configured. Cannot sign SEP-24 URL."
  let expiration := now + config.WEBVIEW_URL_EXPIRATION_SECONDS
  let allParams := withExpiration params expiration
  let signature := hex (hmac.digest secret (wellFormed (canonicalString allParams)))
  let url := allParams.rows.foldl Url.appendDefined baseUrl
  return url.append (text "sig") signature

/-! ## Verifying -/

inductive QueryValue where
  | string (s : Text)
  | array (items : List QueryValue)
  | object (entries : List (Text × QueryValue))

abbrev Query := Keyed (Prod.fst : Text × QueryValue → Text)

def Query.get (query : Query) (key : Text) : Option QueryValue := (query.find? key).map (·.2)

/-- A parameter that is a string, and not the empty one. -/
def Query.nonEmpty (query : Query) (key : Text) : Option Text :=
  match query.get key with
  | some (.string s) => if s = [] then none else some s
  | _ => none

/-- `parseInt(s, 10)`. -/
def parseInt (s : Text) : Option ℤ :=
  let s := s.dropWhile isTrimmed
  let sign : ℤ := if s.head? = some '-'.toNat then -1 else 1
  let s := if s.head? = some '-'.toNat ∨ s.head? = some '+'.toNat then s.tail else s
  let digits := s.takeWhile isDigit
  if digits = [] then none else some (sign * (Digits.value digits : ℤ))

/-- What the loop of the verifier keeps of a parameter. -/
def keptParam : Text × QueryValue → Option (Text × Option Text)
  | (key, .string s) => if key ≠ text "sig" then some (key, some s) else none
  | _ => none

theorem fst_of_mem_keptParam {e : Text × QueryValue} {kept : Text × Option Text}
    (h : kept ∈ keptParam e) : kept.1 = e.1 := by
  obtain ⟨key, value⟩ := e
  cases value <;> grind [keptParam]

def Query.allParams (query : Query) : Sep24UrlParams where
  rows := query.rows.filterMap keptParam
  nodup := query.nodup.sublist
    (Keyed.map_filterMap_sublist fun _ _ _ kept => fst_of_mem_keptParam kept)

structure Rejection where
  status : ℕ
  error : String
  deriving DecidableEq, Repr

/-- The request is passed on to the handler if there is no rejection. -/
def verifySep24Signature (query : Query) (now : ℕ) : Except Rejection Unit := do
  let secret ← orFail config.secret ⟨500, "Server configuration error: Signing secret missing."⟩
  let sig ← orFail (query.nonEmpty (text "sig")) ⟨400, "Missing or invalid signature"⟩
  let exp ← orFail (query.nonEmpty (text "exp")) ⟨400, "Missing or invalid expiration timestamp"⟩
  let expirationTimestamp ← orFail ((parseInt exp).filter (0 < ·))
    ⟨400, "Invalid expiration timestamp format"⟩
  require (¬ expirationTimestamp < now) ⟨401, "Expired URL"⟩
  let expectedSignature :=
    hex (hmac.digest secret (wellFormed (canonicalString query.allParams)))
  require (unhex expectedSignature = unhex sig) ⟨401, "Invalid signature"⟩

/-! ## The query parser -/

/-- Names that are no paths into an array or an object. -/
def Plain (name : Text) : Prop := name ≠ [] ∧ '['.toNat ∉ name ∧ name ≠ text "__proto__"

instance (name : Text) : Decidable (Plain name) :=
  inferInstanceAs (Decidable (_ ∧ _ ∧ _))

/-- Writing the parameters of a URL and reading them with `qs`, as Express calls it. -/
structure QueryParser where
  parse : List (Text × Text) → Query
  /-- A string is read for a plain name exactly if it is there once, among parameters that are not
  more than the parser reads. -/
  string_iff {params : List (Text × Text)} (few : params.length ≤ 1000)
    (plain : ∀ param ∈ params, Plain param.1) (name value : Text) :
    (parse params).get name = some (.string value) ↔
      params.filter (fun param => param.1 = name) = [(name, value)]

/-! ## Entries of the canonical text -/

variable {config hmac}

theorem mem_sortedKeys {params : Sep24UrlParams} {key : Text} :
    key ∈ sortedKeys params ↔ key ∈ params.rows.map (·.1) :=
  List.mem_insertionSort _

theorem sortedKeys_congr {params params' : Sep24UrlParams}
    (h : ∀ key, key ∈ params.rows.map (·.1) ↔ key ∈ params'.rows.map (·.1)) :
    sortedKeys params = sortedKeys params' := by
  have perm : (params.rows.map (·.1)).Perm (params'.rows.map (·.1)) :=
    (List.perm_ext_iff_of_nodup params.nodup params'.nodup).2 h
  refine List.Perm.eq_of_pairwise (fun _ _ _ _ => le_antisymm)
    (List.pairwise_insertionSort (· ≤ ·) _) (List.pairwise_insertionSort (· ≤ ·) _) ?_
  exact (List.perm_insertionSort _ _).trans (perm.trans (List.perm_insertionSort _ _).symm)

theorem get_of_mem {params : Sep24UrlParams} {e : Text × Option Text} (h : e ∈ params.rows) :
    params.get e.1 = e.2 := by
  rw [Sep24UrlParams.get, Keyed.find?_of_mem h]
  rfl

theorem length_intercalate {xs : List Text} (h : xs ≠ []) :
    (List.intercalate [ampersand] xs).length + 1 = (xs.map (·.length + 1)).sum := by
  induction xs with
  | nil => exact absurd rfl h
  | cons x xs ih =>
    cases xs with
    | nil => simp
    | cons y xs =>
      have := ih (List.cons_ne_nil _ _)
      simp only [List.intercalate_cons_cons, List.length_append, List.map_cons, List.sum_cons,
        List.length_singleton] at this ⊢
      omega

/-- The places that an entry takes, with the signs after it. -/
def weight (e : Text × Option Text) : ℕ := e.1.length + (written e.2).length + 2

theorem length_canonicalString {params : Sep24UrlParams} (h : params.rows ≠ []) :
    (canonicalString params).length + 1 = (params.rows.map weight).sum := by
  have perm : (sortedKeys params).Perm (params.rows.map (·.1)) := List.perm_insertionSort _ _
  have nonempty : sortedKeys params ≠ [] := fun hnil => by
    rw [hnil] at perm
    exact h (List.map_eq_nil_iff.1 perm.nil_eq.symm)
  rw [canonicalString, length_intercalate (by simpa using nonempty), List.map_map,
    (perm.map _).sum_eq, List.map_map]
  congr 1
  refine List.map_congr_left fun e he => ?_
  simp only [Function.comp_apply, weight, get_of_mem he, List.length_append, List.length_cons]
  omega

theorem wellFormed_intercalate (xs : List Text) :
    wellFormed (List.intercalate [ampersand] xs) =
      List.intercalate [ampersand] (xs.map wellFormed) := by
  induction xs with
  | nil => rfl
  | cons x xs ih =>
    cases xs with
    | nil => simp
    | cons y xs =>
      rw [List.intercalate_cons_cons, List.append_assoc, List.singleton_append,
        wellFormed_append_cons (by decide) (by decide), ih]
      simp

theorem wellFormed_canonicalString (params : Sep24UrlParams) :
    wellFormed (canonicalString params) = List.intercalate [ampersand]
      ((sortedKeys params).map fun key =>
        wellFormed key ++ equals :: wellFormed (written (params.get key))) := by
  rw [canonicalString, wellFormed_intercalate, List.map_map]
  congr 1
  refine List.map_congr_left fun key _ => ?_
  exact wellFormed_append_cons (by decide) (by decide) _ _

/-- What follows an entry can be taken for the end of its value. -/
theorem intercalate_append_cons (xs : List Text) (y : Text) (ys : List Text) :
    List.intercalate [ampersand] (xs ++ y :: ys) = List.intercalate [ampersand]
      (xs ++ [y ++ if ys = [] then [] else ampersand :: List.intercalate [ampersand] ys]) := by
  induction xs with
  | nil =>
    cases ys <;> simp
  | cons x xs ih =>
    rw [List.cons_append, List.intercalate_cons_of_ne_nil (by simp), ih, List.cons_append,
      List.intercalate_cons_of_ne_nil (by simp)]

/-! ## What the verifier checks -/

theorem nonEmpty_eq_some {query : Query} {key s : Text} :
    query.nonEmpty key = some s ↔ query.get key = some (.string s) ∧ s ≠ [] := by
  unfold Query.nonEmpty
  split
  · next s' h =>
    rw [h]
    split_ifs with hs <;> grind
  · next h =>
    constructor
    · rintro ⟨⟩
    · rintro ⟨hs, -⟩
      exact absurd hs (h s)

theorem verify_eq_ok {query : Query} {now : ℕ} :
    verifySep24Signature config hmac query now = .ok () ↔ ∃ secret sig exp expiration,
      config.secret = some secret ∧
      query.get (text "sig") = some (.string sig) ∧ sig ≠ [] ∧
      query.get (text "exp") = some (.string exp) ∧ exp ≠ [] ∧
      parseInt exp = some expiration ∧ 0 < expiration ∧ (now : ℤ) ≤ expiration ∧
      hmac.digest secret (wellFormed (canonicalString query.allParams)) = unhex sig := by
  simp only [verifySep24Signature, bind_eq_ok, orFail_eq_ok, require_eq_ok, nonEmpty_eq_some,
    Option.filter_eq_some_iff, decide_eq_true_eq, unhex_hex, not_lt]
  grind

theorem get_eq_some_iff {query : Query} {key : Text} {value : QueryValue} :
    query.get key = some value ↔ (key, value) ∈ query.rows := by
  rw [Query.get, Option.map_eq_some_iff]
  constructor
  · rintro ⟨⟨key', value'⟩, hfind, rfl⟩
    obtain ⟨hmem, rfl⟩ := Keyed.of_find? hfind
    exact hmem
  · exact fun hmem => ⟨_, Keyed.find?_of_mem hmem, rfl⟩

theorem mem_allParams {query : Query} {key : Text} {value : Option Text} :
    (key, value) ∈ query.allParams.rows ↔
      key ≠ text "sig" ∧ ∃ s, value = some s ∧ query.get key = some (.string s) := by
  simp only [get_eq_some_iff, Query.allParams, List.mem_filterMap]
  constructor
  · rintro ⟨⟨key', v⟩, hmem, kept⟩
    cases v <;> grind [keptParam]
  · rintro ⟨hkey, s, rfl, hmem⟩
    exact ⟨_, hmem, by simp [keptParam, hkey]⟩

theorem parseInt_digits {digits rest : Text} (hne : digits ≠ [])
    (h : ∀ c ∈ digits, isDigit c = true) (hrest : ∀ c ∈ rest.head?, isDigit c = false) :
    parseInt (digits ++ rest) = some (Digits.value digits : ℤ) := by
  obtain ⟨d, digits, rfl⟩ := List.exists_cons_of_ne_nil hne
  have hd : isDigit d = true := h d List.mem_cons_self
  have trimmed : isTrimmed d = false := Digits.isTrimmed_of_isDigit hd
  have minus : some d ≠ some '-'.toNat := Digits.head?_ne_of_isDigit hd (by decide)
  have plus : some d ≠ some '+'.toNat := Digits.head?_ne_of_isDigit hd (by decide)
  have start := Digits.takeWhile_digits h hrest
  rw [List.cons_append] at start ⊢
  simp only [parseInt, List.dropWhile_cons, trimmed, List.head?_cons, or_self,
    start, Bool.false_eq_true, if_false, one_mul, minus, plus, reduceCtorEq]

/-! ## The parameters of a signed URL -/

/-- What the signer appends. -/
def definedParams (params : Sep24UrlParams) : List (Text × Text) :=
  params.rows.filterMap fun e => e.2.map fun s => (wellFormed e.1, wellFormed s)

theorem wellFormed_hex (bytes : List UInt8) : wellFormed (hex bytes) = hex bytes := by
  have digit : ∀ n < 16, hexDigit n < 0xD800 := by decide
  refine wellFormed_of_small fun c hc => ?_
  simp only [hex, List.mem_flatMap, List.mem_cons, List.not_mem_nil, or_false] at hc
  obtain ⟨byte, -, rfl | rfl⟩ := hc
  · exact digit _ (by have := byte.toNat_lt; omega)
  · exact digit _ (by omega)

theorem hex_digest_ne_nil (secret data : Text) : hex (hmac.digest secret data) ≠ [] := by
  intro hnil
  have back := congrArg unhex hnil
  rw [unhex_hex] at back
  exact hmac.digest_ne_nil secret data back

theorem generate_eq_ok {baseUrl url : Url} {params : Sep24UrlParams} {now : ℕ} :
    generateSignedSep24Url config hmac baseUrl params now = .ok url ↔ ∃ secret,
      config.secret = some secret ∧ url.searchParams = baseUrl.searchParams ++
        definedParams (withExpiration params (now + config.WEBVIEW_URL_EXPIRATION_SECONDS)) ++
        [(text "sig", hex (hmac.digest secret (wellFormed (canonicalString
          (withExpiration params (now + config.WEBVIEW_URL_EXPIRATION_SECONDS))))))] := by
  have appended (url : Url) (rows : List (Text × Option Text)) :
      (rows.foldl Url.appendDefined url).searchParams = url.searchParams ++
        rows.filterMap fun e => e.2.map fun s => (wellFormed e.1, wellFormed s) := by
    induction rows generalizing url with
    | nil => simp
    | cons e rows ih =>
      obtain ⟨key, value⟩ := e
      cases value with
      | none => exact ih url
      | some value =>
        rw [List.foldl_cons, ih]
        simp [Url.appendDefined, Url.append]
  have sig : wellFormed (text "sig") = text "sig" := by decide
  simp only [generateSignedSep24Url, bind_eq_ok, orFail_eq_ok, pure_eq_ok]
  refine exists_congr fun secret => and_congr_right fun _ => ?_
  rw [Url.append, appended, sig, wellFormed_hex]
  constructor
  · rintro rfl
    rfl
  · intro same
    rw [definedParams] at same
    rw [← same]

theorem filter_eq_singleton_iff {rows : List (Text × Text)} (nodup : (rows.map (·.1)).Nodup)
    (name value : Text) :
    rows.filter (fun e => e.1 = name) = [(name, value)] ↔ (name, value) ∈ rows := by
  induction rows with
  | nil => simp
  | cons e rows ih =>
    obtain ⟨key, v⟩ := e
    obtain ⟨hnew, hrest⟩ := List.nodup_cons.1 nodup
    have absent (v' : Text) : (key, v') ∉ rows := fun h =>
      hnew (List.mem_map_of_mem (f := (·.1)) h)
    rw [List.filter_cons, List.mem_cons, Prod.mk.injEq]
    by_cases same : key = name
    · subst same
      have others : rows.filter (fun e => e.1 = key) = [] := by
        refine List.filter_eq_nil_iff.2 fun e he => ?_
        rintro hkey
        obtain rfl := of_decide_eq_true hkey
        exact absent e.2 he
      rw [if_pos (decide_eq_true rfl), others]
      simp [absent, eq_comm]
    · rw [if_neg (by simpa using same), ih hrest]
      simp [Ne.symm same]

/-! ## What is read back -/

/-- The entry that the verifier has for one of the signer. -/
def keptEntry (e : Text × Option Text) : Option (Text × Option Text) :=
  if e.1 = text "sig" then none else e.2.map fun s => (e.1, some (wellFormed s))

theorem mem_keptEntry {e : Text × Option Text} {key : Text} {value : Option Text} :
    keptEntry e = some (key, value) ↔
      key ≠ text "sig" ∧ ∃ s, e = (key, some s) ∧ value = some (wellFormed s) := by
  obtain ⟨key', value'⟩ := e
  cases value' <;> grind [keptEntry]

theorem of_keptEntry {e e' : Text × Option Text} (h : e' ∈ keptEntry e) :
    e'.1 = e.1 ∧ weight e' = weight e := by
  obtain ⟨key, value⟩ := e'
  obtain ⟨-, s, rfl, rfl⟩ := mem_keptEntry.1 h
  simp [weight, written, length_wellFormed]

theorem sum_weight_le (rows : List (Text × Option Text)) :
    ((rows.filterMap keptEntry).map weight).sum ≤ (rows.map weight).sum := by
  induction rows with
  | nil => rfl
  | cons e rows ih =>
    rw [List.filterMap_cons, List.map_cons, List.sum_cons]
    cases h : keptEntry e with
    | none => exact ih.trans (Nat.le_add_left _ _)
    | some e' =>
      rw [List.map_cons, List.sum_cons, (of_keptEntry h).2]
      exact Nat.add_le_add_left ih _

/-- Every entry has a weight, so nothing is left out of entries that weigh as much. -/
theorem sum_weight_eq_iff {rows : List (Text × Option Text)} :
    ((rows.filterMap keptEntry).map weight).sum = (rows.map weight).sum ↔
      ∀ e ∈ rows, e.1 ≠ text "sig" ∧ e.2 ≠ none := by
  induction rows with
  | nil => simp
  | cons e rows ih =>
    rw [List.filterMap_cons, List.map_cons, List.sum_cons, List.forall_mem_cons, ← ih]
    cases h : keptEntry e with
    | none =>
      have lost : ¬ (e.1 ≠ text "sig" ∧ e.2 ≠ none) := by
        obtain ⟨key, value⟩ := e
        cases value <;> grind [keptEntry]
      have := sum_weight_le rows
      have : 0 < weight e := by simp [weight]
      simp only [lost, false_and, iff_false]
      omega
    | some e' =>
      obtain ⟨key, value⟩ := e'
      obtain ⟨hkey, s, rfl, rfl⟩ := mem_keptEntry.1 h
      rw [List.map_cons, List.sum_cons, (of_keptEntry h).2]
      simp [hkey]

/-- Nothing is left out, and the values are kept as UTF-8 keeps them. -/
theorem wellFormed_canonicalString_parsed {params all : Sep24UrlParams}
    (perm : params.rows.Perm (all.rows.filterMap keptEntry))
    (complete : ∀ e ∈ all.rows, e.1 ≠ text "sig" ∧ e.2 ≠ none) :
    wellFormed (canonicalString params) = wellFormed (canonicalString all) := by
  have back {key s : Text} (he : (key, some s) ∈ all.rows) :
      (key, some (wellFormed s)) ∈ params.rows := by
    rw [perm.mem_iff, List.mem_filterMap]
    exact ⟨_, he, mem_keptEntry.2 ⟨(complete _ he).1, s, rfl, rfl⟩⟩
  have keys : sortedKeys params = sortedKeys all := by
    refine sortedKeys_congr fun key => ?_
    rw [(perm.map _).mem_iff]
    constructor
    · intro h
      exact (Keyed.map_filterMap_sublist fun _ _ _ h => (of_keptEntry h).1).subset h
    · intro h
      obtain ⟨⟨_, value⟩, he, rfl⟩ := List.mem_map.1 h
      obtain ⟨s, rfl⟩ := Option.ne_none_iff_exists'.1 (complete _ he).2
      exact List.mem_map_of_mem (f := (·.1)) (perm.mem_iff.1 (back he))
  rw [wellFormed_canonicalString, wellFormed_canonicalString, keys]
  congr 1
  refine List.map_congr_left fun key hkey => ?_
  obtain ⟨⟨key', value⟩, he, rfl⟩ := List.mem_map.1 (mem_sortedKeys.1 hkey)
  obtain ⟨s, rfl⟩ := Option.ne_none_iff_exists'.1 (complete _ he).2
  rw [get_of_mem (back he), get_of_mem he]
  exact congrArg (wellFormed key' ++ equals :: ·) (wellFormed_wellFormed s)

section ReadBack

variable {parser : QueryParser} {all : Sep24UrlParams} {signature : Text}

theorem mem_definedParams (kept : ∀ e ∈ all.rows, wellFormed e.1 = e.1) {key value : Text} :
    (key, value) ∈ definedParams all ↔ ∃ s, (key, some s) ∈ all.rows ∧ value = wellFormed s := by
  simp only [definedParams, List.mem_filterMap, Option.map_eq_some_iff, Prod.mk.injEq]
  constructor
  · rintro ⟨⟨key', _⟩, he, s, rfl, hkey, rfl⟩
    exact ⟨s, by rw [← hkey, kept _ he]; exact he, rfl⟩
  · rintro ⟨s, he, rfl⟩
    exact ⟨_, he, s, rfl, kept _ he, rfl⟩

variable (kept : ∀ e ∈ all.rows, wellFormed e.1 = e.1) (plain : ∀ e ∈ all.rows, Plain e.1)
  (few : all.rows.length < 1000)

include kept plain few

/-- A string is read for every defined parameter, but for a second signature. -/
theorem parsed_iff (key value : Text) :
    (parser.parse (definedParams all ++ [(text "sig", signature)])).get key =
        some (.string value) ↔
      if key = text "sig" then (∀ s, (text "sig", some s) ∉ all.rows) ∧ value = signature
      else ∃ s, (key, some s) ∈ all.rows ∧ value = wellFormed s := by
  have nodup : ((definedParams all).map (·.1)).Nodup := by
    refine all.nodup.sublist (Keyed.map_filterMap_sublist fun e he param hparam => ?_)
    obtain ⟨s, -, rfl⟩ := Option.map_eq_some_iff.1 hparam
    exact kept e he
  have plainNames : ∀ param ∈ definedParams all ++ [(text "sig", signature)], Plain param.1 := by
    intro param hparam
    rcases List.mem_append.1 hparam with hparam | hparam
    · obtain ⟨s, he, -⟩ := (mem_definedParams kept).1 hparam
      exact plain _ he
    · rw [List.mem_singleton.1 hparam]
      exact (by decide : Plain (text "sig"))
  have fewPairs : (definedParams all ++ [(text "sig", signature)]).length ≤ 1000 := by
    have := List.length_filterMap_le
      (fun e : Text × Option Text => e.2.map fun s => (wellFormed e.1, wellFormed s)) all.rows
    rw [List.length_append, List.length_singleton, definedParams]
    omega
  rw [parser.string_iff fewPairs plainNames, List.filter_append]
  split_ifs with hkey
  · subst hkey
    have none : (definedParams all).filter (fun param => param.1 = text "sig") = [] ↔
        ∀ s, (text "sig", some s) ∉ all.rows := by
      simp only [List.filter_eq_nil_iff, decide_eq_true_eq]
      constructor
      · intro h s he
        exact h _ ((mem_definedParams kept).2 ⟨s, he, rfl⟩) rfl
      · rintro h ⟨_, value⟩ hparam rfl
        obtain ⟨s, he, -⟩ := (mem_definedParams kept).1 hparam
        exact h s he
    rw [← none]
    constructor
    · intro h
      have alone := congrArg List.length h
      rw [List.length_append] at alone
      have nil : (definedParams all).filter (fun param => param.1 = text "sig") = [] := by
        simpa using alone
      rw [nil] at h
      exact ⟨nil, by simpa [eq_comm] using h⟩
    · rintro ⟨h, rfl⟩
      simp [h]
  · have : ¬ text "sig" = key := Ne.symm hkey
    simp [this, filter_eq_singleton_iff nodup, mem_definedParams kept]

theorem allParams_parsed_perm :
    ((parser.parse (definedParams all ++ [(text "sig", signature)])).allParams.rows).Perm
      (all.rows.filterMap keptEntry) := by
  have nodup : ((all.rows.filterMap keptEntry).map (·.1)).Nodup :=
    all.nodup.sublist (Keyed.map_filterMap_sublist fun _ _ _ h => (of_keptEntry h).1)
  refine (List.perm_ext_iff_of_nodup (Keyed.nodup _).of_map nodup.of_map).2 ?_
  rintro ⟨key, value⟩
  simp only [mem_allParams, parsed_iff kept plain few, List.mem_filterMap, mem_keptEntry]
  grind

/-- The signature is over the names and values of all parameters, and the texts are alike in length
only if none of them is left out. -/
theorem verify_parsed_iff {secret : Text} {expiration now : ℕ}
    (hsecret : config.secret = some secret)
    (hexp : (text "exp", some (text (toString expiration))) ∈ all.rows)
    (hsig : signature = hex (hmac.digest secret (wellFormed (canonicalString all))))
    (started : 0 < expiration) (unexpired : now ≤ expiration) :
    verifySep24Signature config hmac
        (parser.parse (definedParams all ++ [(text "sig", signature)])) now = .ok () ↔
      ∀ e ∈ all.rows, e.1 ≠ text "sig" ∧ e.2 ≠ none := by
  set query := parser.parse (definedParams all ++ [(text "sig", signature)]) with hquery
  have perm : query.allParams.rows.Perm (all.rows.filterMap keptEntry) :=
    allParams_parsed_perm kept plain few
  have readExp : query.get (text "exp") = some (.string (text (toString expiration))) := by
    rw [hquery, parsed_iff kept plain few, if_neg (by decide)]
    refine ⟨_, hexp, (wellFormed_of_small fun c hc => ?_).symm⟩
    rw [Digits.text_toString] at hc
    have := Digits.isDigit_iff.1 (Digits.isDigit_of_mem_decimal hc)
    omega
  constructor
  · intro accepted
    obtain ⟨secret', sig, -, -, hsecret', readSig, -, -, -, -, -, -, same⟩ :=
      verify_eq_ok.1 accepted
    obtain rfl := Option.some.inj (hsecret.symm.trans hsecret')
    rw [hquery, parsed_iff kept plain few, if_pos rfl] at readSig
    obtain ⟨-, rfl⟩ := readSig
    rw [hsig, unhex_hex] at same
    have lengths := congrArg List.length (hmac.injective secret same)
    rw [length_wellFormed, length_wellFormed] at lengths
    have keptExp : query.allParams.rows ≠ [] :=
      List.ne_nil_of_mem (mem_allParams.2 ⟨by decide, _, rfl, readExp⟩)
    have sums := length_canonicalString keptExp
    rw [lengths, length_canonicalString (List.ne_nil_of_mem hexp), (perm.map weight).sum_eq] at sums
    exact sum_weight_eq_iff.1 sums.symm
  · intro complete
    have readSig : query.get (text "sig") = some (.string signature) := by
      rw [hquery, parsed_iff kept plain few, if_pos rfl]
      exact ⟨fun s hs => (complete _ hs).1 rfl, rfl⟩
    have hex_ne_nil : signature ≠ [] := hsig ▸ hex_digest_ne_nil _ _
    have exp_ne_nil : text (toString expiration) ≠ [] := by
      rw [Digits.text_toString]
      exact Digits.decimal_ne_nil expiration
    have read : parseInt (text (toString expiration)) = some (expiration : ℤ) := by
      have := @parseInt_digits _ [] (Digits.decimal_ne_nil expiration)
        (fun c hc => Digits.isDigit_of_mem_decimal hc) (by simp)
      rwa [List.append_nil, Digits.value_decimal, ← Digits.text_toString] at this
    refine verify_eq_ok.2 ⟨secret, signature, _, expiration, hsecret, readSig, hex_ne_nil, readExp,
      exp_ne_nil, read, by exact_mod_cast started, by exact_mod_cast unexpired, ?_⟩
    rw [hsig, unhex_hex]
    exact congrArg _ (wellFormed_canonicalString_parsed perm complete)

end ReadBack

/-! ## Queries that were not signed -/

/-- Apart from the signature and the expiration, the handler reads what was given to the signer. -/
def Carries (query : Query) (params : Sep24UrlParams) : Prop :=
  ∀ key, key ≠ text "sig" → key ≠ text "exp" →
    query.get key = (params.get key).map QueryValue.string

/-- What was signed after the expiration, with the sign before it. -/
def tail (all : Sep24UrlParams) (after : List Text) : Text :=
  if after = [] then [] else ampersand :: List.intercalate [ampersand]
    (after.map fun key => key ++ equals :: written (all.get key))

section Forged

variable {all : Sep24UrlParams} {before after : List Text} {expiration signature : Text}

/-- The texts before the expiration as they were signed, what was signed after it as the end of the
expiration, and an array that was not signed. -/
def forged (all : Sep24UrlParams) (before after : List Text) (expiration signature : Text)
    (nodup : before.Nodup) (early : ∀ key ∈ before, key < text "exp") : Query where
  rows := before.map (fun key => (key, .string (written (all.get key)))) ++
    [(text "exp", .string (expiration ++ tail all after)), (text "sig", .string signature),
      (text "x", .array [.string []])]
  nodup := by
    have sig : text "exp" < text "sig" := by decide
    have x : text "exp" < text "x" := by decide
    rw [List.map_append, List.map_map]
    refine List.nodup_append.2 ⟨by simpa [Function.comp_def] using nodup,
      (by decide : [text "exp", text "sig", text "x"].Nodup), ?_⟩
    intro _ hkey key' hkey'
    obtain ⟨key, hbefore, rfl⟩ := List.mem_map.1 hkey
    have : key < text "exp" := early key hbefore
    simp only [List.map_cons, List.map_nil, List.mem_cons, List.not_mem_nil, or_false] at hkey'
    rcases hkey' with rfl | rfl | rfl
    · exact this.ne
    · exact (this.trans sig).ne
    · exact (this.trans x).ne

variable {nodup : before.Nodup} {early : ∀ key ∈ before, key < text "exp"}

theorem allParams_forged :
    (forged all before after expiration signature nodup early).allParams.rows =
      before.map (fun key => (key, some (written (all.get key)))) ++
        [(text "exp", some (expiration ++ tail all after))] := by
  have strings : (before.map fun key => (key, QueryValue.string (written (all.get key)))).filterMap
      keptParam = before.map fun key => (key, some (written (all.get key))) := by
    rw [List.filterMap_map]
    refine (List.filterMap_congr fun key hkey => ?_).trans
      (congrFun List.filterMap_eq_map' before)
    have : key ≠ text "sig" := ((early key hkey).trans (by decide)).ne
    simp [keptParam, this]
  change List.filterMap keptParam (_ ++ _) = _
  rw [List.filterMap_append, strings]
  rfl

theorem sortedKeys_forged (sorted : (before ++ [text "exp"]).Pairwise (· ≤ ·)) :
    sortedKeys (forged all before after expiration signature nodup early).allParams =
      before ++ [text "exp"] := by
  have keys : (forged all before after expiration signature nodup early).allParams.rows.map (·.1) =
      before ++ [text "exp"] := by
    rw [allParams_forged, List.map_append, List.map_map]
    simp [Function.comp_def]
  rw [sortedKeys, keys, sorted.insertionSort_eq]

/-- Both are joined to the same text. -/
theorem canonicalString_forged (split : sortedKeys all = before ++ text "exp" :: after)
    (hexp : (text "exp", some expiration) ∈ all.rows) :
    canonicalString (forged all before after expiration signature nodup early).allParams =
      canonicalString all := by
  have sorted : (before ++ [text "exp"]).Pairwise (· ≤ ·) := by
    have all_sorted : (before ++ text "exp" :: after).Pairwise (· ≤ ·) := by
      rw [← split]
      exact List.pairwise_insertionSort _ _
    refine all_sorted.sublist ?_
    simp
  rw [canonicalString, canonicalString, sortedKeys_forged sorted, split, List.map_append,
    List.map_append, List.map_cons, List.map_cons, List.map_nil,
    intercalate_append_cons _ _ (after.map _)]
  have getExp : (forged all before after expiration signature nodup early).allParams.get
      (text "exp") = some (expiration ++ tail all after) :=
    get_of_mem (e := (_, _)) (by
      rw [allParams_forged]
      exact List.mem_append_right _ List.mem_cons_self)
  have getBefore : ∀ key ∈ before, (forged all before after expiration signature nodup
      early).allParams.get key = some (written (all.get key)) := by
    intro key hkey
    refine get_of_mem (e := (_, _)) ?_
    rw [allParams_forged]
    exact List.mem_append_left _ (List.mem_map_of_mem hkey)
  rw [getExp, get_of_mem hexp]
  refine congrArg (List.intercalate [ampersand]) (congrArg₂ (· ++ ·) ?_ ?_)
  · refine List.map_congr_left fun key hkey => ?_
    rw [getBefore key hkey]
    rfl
  · simp [written, tail]

end Forged

theorem exists_forged {params : Sep24UrlParams} {secret : Text} {expiration now : ℕ}
    (hsecret : config.secret = some secret) (started : 0 < expiration)
    (unexpired : now ≤ expiration) :
    ∃ query, verifySep24Signature config hmac query now = .ok () ∧
      query.get (text "sig") = some (.string (hex (hmac.digest secret
        (wellFormed (canonicalString (withExpiration params expiration)))))) ∧
      ∀ given, ¬ Carries query given := by
  set all := withExpiration params expiration
  have hexp : (text "exp", some (text (toString expiration))) ∈ all.rows :=
    Keyed.mem_put.2 (.inl rfl)
  obtain ⟨before, after, split⟩ := List.append_of_mem
    (mem_sortedKeys.2 (List.mem_map_of_mem (f := (·.1)) hexp))
  have sorted : (before ++ text "exp" :: after).Pairwise (· ≤ ·) := by
    rw [← split]
    exact List.pairwise_insertionSort _ _
  have distinct : (before ++ text "exp" :: after).Nodup := by
    rw [← split]
    exact (List.perm_insertionSort _ _).nodup_iff.2 all.nodup
  obtain ⟨nodup, -, apart⟩ := List.nodup_append.1 distinct
  have early : ∀ key ∈ before, key < text "exp" := fun key hkey =>
    lt_of_le_of_ne ((List.pairwise_append.1 sorted).2.2 key hkey _ List.mem_cons_self)
      (apart key hkey _ List.mem_cons_self)
  set signature := hex (hmac.digest secret (wellFormed (canonicalString all))) with hsig
  have mem {e : Text × QueryValue} (he : e ∈ [(text "exp", QueryValue.string
      (text (toString expiration) ++ tail all after)), (text "sig", .string signature),
      (text "x", .array [.string []])]) :
      (forged all before after (text (toString expiration)) signature nodup early).get e.1 =
        some e.2 :=
    get_eq_some_iff.2 (List.mem_append_right _ he)
  have readSig := mem (e := (_, _)) (List.mem_cons_of_mem _ List.mem_cons_self)
  refine ⟨_, verify_eq_ok.2 ⟨secret, signature, _, expiration, hsecret, readSig, ?_,
    mem (e := (_, _)) List.mem_cons_self, ?_, ?_, by exact_mod_cast started,
    by exact_mod_cast unexpired, ?_⟩, readSig, ?_⟩
  · exact hex_digest_ne_nil _ _
  · intro hnil
    rw [Digits.text_toString] at hnil
    exact Digits.decimal_ne_nil expiration (List.append_eq_nil_iff.1 hnil).1
  · have read := @parseInt_digits _ (tail all after) (Digits.decimal_ne_nil expiration)
      (fun c hc => Digits.isDigit_of_mem_decimal hc) (by
        unfold tail
        split_ifs
        · simp
        · rintro c ⟨⟩
          decide)
    rwa [Digits.value_decimal, ← Digits.text_toString] at read
  · rw [canonicalString_forged split hexp, hsig, unhex_hex]
  · intro given carries
    have := carries (text "x") (by decide) (by decide)
    rw [mem (e := (_, _)) (List.mem_cons_of_mem _ (List.mem_cons_of_mem _ List.mem_cons_self)),
      eq_comm, Option.map_eq_some_iff] at this
    obtain ⟨_, -, ⟨⟩⟩ := this

/-! ## Signed URLs -/

/-- Few plain names, without lone surrogates, for a URL without parameters of its own: what the
parser is known to do with the URL. -/
structure Readable (baseUrl : Url) (params : Sep24UrlParams) : Prop where
  base : baseUrl.searchParams = []
  plain : ∀ e ∈ params.rows, Plain e.1 ∧ wellFormed e.1 = e.1
  few : params.rows.length < 999

/-- The signature at the end of a signed URL. -/
def Url.signature (url : Url) : Option Text := (url.searchParams.getLast?).map (·.2)

/-- A URL is accepted until its expiration exactly if no value was undefined, apart from that of
the expiration, and there was no other signature. With its signature there are always accepted
queries that carry what was given to no call. -/
theorem signed_url_accepted_iff (parser : QueryParser) {baseUrl url : Url}
    {params : Sep24UrlParams} {now : ℕ} (started : 0 < now)
    (made : generateSignedSep24Url config hmac baseUrl params now = .ok url) :
    (Readable baseUrl params →
      ((∀ t, now ≤ t → t ≤ now + config.WEBVIEW_URL_EXPIRATION_SECONDS →
          verifySep24Signature config hmac (parser.parse url.searchParams) t = .ok ()) ↔
        ∀ e ∈ params.rows, e.1 ≠ text "sig" ∧ (e.1 = text "exp" ∨ e.2 ≠ none))) ∧
    ¬ ∀ query t, verifySep24Signature config hmac query t = .ok () →
        query.get (text "sig") = url.signature.map .string → ∃ given, Carries query given := by
  obtain ⟨secret, hsecret, hurl⟩ := generate_eq_ok.1 made
  set expiration := now + config.WEBVIEW_URL_EXPIRATION_SECONDS with hexpiration
  have later : 0 < expiration := by omega
  constructor
  · rintro ⟨base, plain, few⟩
    rw [base, List.nil_append] at hurl
    have names : ∀ e ∈ (withExpiration params expiration).rows,
        Plain e.1 ∧ wellFormed e.1 = e.1 := by
      intro e he
      rcases Keyed.mem_put.1 he with rfl | ⟨he, -⟩
      · exact ⟨(by decide : Plain (text "exp")), (by decide : wellFormed (text "exp") = text "exp")⟩
      · exact plain e he
    have fewer : (withExpiration params expiration).rows.length < 1000 := by
      have := params.length_put_le (text "exp", some (text (toString expiration)))
      rw [withExpiration]
      omega
    have at_time (t : ℕ) (ht : t ≤ expiration) := @verify_parsed_iff config hmac parser _ _
      (fun e he => (names e he).2) (fun e he => (names e he).1) fewer secret expiration t hsecret
      (Keyed.mem_put.2 (.inl rfl)) rfl later ht
    have whole : (∀ e ∈ (withExpiration params expiration).rows, e.1 ≠ text "sig" ∧ e.2 ≠ none) ↔
        ∀ e ∈ params.rows, e.1 ≠ text "sig" ∧ (e.1 = text "exp" ∨ e.2 ≠ none) := by
      have apart : text "exp" ≠ text "sig" := by decide
      constructor
      · intro all e he
        by_cases hkey : e.1 = text "exp"
        · exact ⟨hkey ▸ apart, .inl hkey⟩
        · exact (all e (Keyed.mem_put.2 (.inr ⟨he, hkey⟩))).imp_right .inr
      · intro all e he
        rcases Keyed.mem_put.1 he with rfl | ⟨he, hkey⟩
        · exact ⟨apart, nofun⟩
        · exact (all e he).imp_right fun h => h.resolve_left hkey
    rw [hurl, ← whole]
    constructor
    · intro accepted
      exact (at_time now (by omega)).1 (accepted now le_rfl (by omega))
    · intro complete t _ ht
      exact (at_time t ht).2 complete
  · intro only
    obtain ⟨query, accepted, hsig, other⟩ := @exists_forged config hmac params secret
      expiration now hsecret later (by omega)
    obtain ⟨given, carries⟩ := only query now accepted (by
      rw [hsig, Url.signature, hurl]
      simp)
    exact other given carries

/-! ## A signed amount -/

theorem replicate_append_inj {c c' : ℕ} {rest rest' : List UInt8}
    (h : List.replicate c 1 ++ 0 :: rest = List.replicate c' 1 ++ 0 :: rest') :
    c = c' ∧ rest = rest' := by
  induction c generalizing c' with
  | zero => cases c' <;> simp_all [List.replicate_succ]
  | succ c ih =>
    cases c' with
    | zero => simp [List.replicate_succ] at h
    | succ c' =>
      have tails : List.replicate c 1 ++ 0 :: rest = List.replicate c' 1 ++ 0 :: rest' := by
        simpa [List.replicate_succ] using h
      exact (ih tails).imp_left (congrArg (· + 1))

/-- A digest from which the text can be read. -/
def unary : Hmac where
  digest _ data := 2 :: data.flatMap fun c => List.replicate c 1 ++ [0]
  injective _ := by
    intro s t h
    replace h := List.tail_eq_of_cons_eq h
    induction s generalizing t with
    | nil =>
      cases t with
      | nil => rfl
      | cons d t => simp at h
    | cons c s ih =>
      cases t with
      | nil => simp at h
      | cons d t =>
        simp only [List.flatMap_cons, List.append_assoc, List.singleton_append] at h
        obtain ⟨rfl, hrest⟩ := replicate_append_inj h
        rw [ih hrest]
  digest_ne_nil _ _ := List.cons_ne_nil _ _

def flatValue : List (Text × Text) → QueryValue
  | [param] => .string param.2
  | same => .array (same.map fun param => .string param.2)

theorem flatValue_eq_string {same : List (Text × Text)} {value : Text} :
    flatValue same = .string value ↔ ∃ name, same = [(name, value)] := by
  match same with
  | [] => simp [flatValue]
  | [(name, v)] => simp [flatValue]
  | _ :: _ :: _ => simp [flatValue]

/-- A parser that knows plain names only. -/
def flat : QueryParser where
  parse params := {
    rows := (params.map (·.1)).dedup.map fun name =>
      (name, flatValue (params.filter fun param => param.1 = name))
    nodup := by
      rw [List.map_map]
      simpa [Function.comp_def] using List.nodup_dedup _ }
  string_iff {params} _ _ name value := by
    simp only [get_eq_some_iff, List.mem_map, List.mem_dedup, Prod.mk.injEq]
    constructor
    · rintro ⟨name, -, rfl, single⟩
      obtain ⟨name', hfilter⟩ := flatValue_eq_string.1 single
      have mem := hfilter.symm ▸ List.mem_singleton_self (name', value)
      rw [hfilter, ← of_decide_eq_true (List.mem_filter.1 mem).2]
    · intro hfilter
      have mem := hfilter.symm ▸ List.mem_singleton_self (name, value)
      exact ⟨name, ⟨_, (List.mem_filter.1 mem).1, rfl⟩, rfl,
        flatValue_eq_string.2 ⟨name, hfilter⟩⟩

def exampleConfig : Config := ⟨some (text "secret"), 600⟩

def amountParams : Sep24UrlParams := ⟨[(text "amount", some (text "100"))], by decide⟩

/-- The URL that is signed at second 1000. -/
def amountUrl : Url :=
  ⟨definedParams (withExpiration amountParams 1600) ++
    [(text "sig", hex (unary.digest (text "secret")
      (wellFormed (canonicalString (withExpiration amountParams 1600)))))]⟩

theorem amountUrl_accepted :
    verifySep24Signature exampleConfig unary (flat.parse amountUrl.searchParams) 1600 = .ok () :=
  ((@signed_url_accepted_iff exampleConfig unary flat ⟨[]⟩ _ amountParams 1000 (by decide)
    (generate_eq_ok.2 ⟨text "secret", by decide, rfl⟩)).1 ⟨rfl, by decide, by decide⟩).2 (by decide)
      1600 (by decide) (by decide)

/-- A query with the parameters of the signed URL, and an array. -/
def statusQuery : Query where
  rows := [(text "amount", .string (text "100")), (text "exp", .string (text "1600")),
    (text "sig", .string (amountUrl.signature.getD [])),
    (text "status", .array [.string (text "completed")])]
  nodup := (by decide : [text "amount", text "exp", text "sig", text "status"].Nodup)

theorem statusQuery_accepted :
    generateSignedSep24Url exampleConfig unary ⟨[]⟩ amountParams 1000 = .ok amountUrl ∧
      verifySep24Signature exampleConfig unary statusQuery 1000 = .ok () ∧
      statusQuery.get (text "sig") = amountUrl.signature.map .string ∧
      ¬ ∃ given, Carries statusQuery given := by
  set signature := hex (unary.digest (text "secret")
    (wellFormed (canonicalString (withExpiration amountParams 1600)))) with hsig
  have readExp : statusQuery.get (text "exp") = some (.string (text "1600")) :=
    get_eq_some_iff.2 (List.mem_of_getElem? (i := 1) rfl)
  have readSig : statusQuery.get (text "sig") = some (.string signature) :=
    get_eq_some_iff.2 (List.mem_of_getElem? (i := 2) rfl)
  have readStatus : statusQuery.get (text "status") = some (.array [.string (text "completed")]) :=
    get_eq_some_iff.2 (List.mem_of_getElem? (i := 3) rfl)
  -- The array is left out of what is signed.
  have same : canonicalString statusQuery.allParams =
      canonicalString (withExpiration amountParams 1600) := by decide +kernel
  refine ⟨generate_eq_ok.2 ⟨text "secret", by decide, rfl⟩, ?_, readSig, ?_⟩
  · refine verify_eq_ok.2 ⟨text "secret", signature, text "1600", 1600, rfl, readSig,
      hex_digest_ne_nil _ _, readExp, by decide, by decide, by decide, by decide, ?_⟩
    rw [hsig, unhex_hex, same]
  · rintro ⟨given, carries⟩
    have := carries (text "status") (by decide) (by decide)
    rw [readStatus] at this
    cases hgiven : given.get (text "status") <;> simp [hgiven] at this

end MobileMoney.Sep24.SignedUrl
