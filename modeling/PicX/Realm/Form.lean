import PicX.Base.Fallible
import PicX.Base.Value

/-!
# Forms and errors of the token endpoint (`exchange.rs`)

A request is an `application/x-www-form-urlencoded` body; what the endpoint cannot do is an OAuth
error with a status. Where the standard library says at which byte a text stops being UTF-8, the
message here ends before it does.
-/

namespace PicX.Realm

open PicX

/-- An OAuth error, with the status it is answered with. -/
structure ExchangeError where
  status : Nat
  code : String
  description : String
  deriving DecidableEq, Repr

namespace ExchangeError

def invalidRequest (description : String) : ExchangeError := ⟨400, "invalid_request", description⟩

def invalidGrant (description : String) : ExchangeError := ⟨400, "invalid_grant", description⟩

def invalidTarget (description : String) : ExchangeError := ⟨400, "invalid_target", description⟩

def unsupportedTokenType (description : String) : ExchangeError :=
  ⟨400, "unsupported_token_type", description⟩

def temporarilyUnavailable (description : String) : ExchangeError :=
  ⟨503, "temporarily_unavailable", description⟩

def serverError (description : String) : ExchangeError := ⟨500, "server_error", description⟩

end ExchangeError

open ExchangeError

/-! ## Parsing -/

/-- The value of a hex digit. -/
def fromHex (byte : UInt8) : Except ExchangeError Nat :=
  if 48 ≤ byte ∧ byte ≤ 57 then .ok (byte.toNat - 48)
  else if 97 ≤ byte ∧ byte ≤ 102 then .ok (byte.toNat - 97 + 10)
  else if 65 ≤ byte ∧ byte ≤ 70 then .ok (byte.toNat - 65 + 10)
  else .error (invalidRequest "form value contains a non-hex percent escape")

/-- The bytes of a form value: `+` is a space, and `%` takes two hex digits. -/
def percentBytes : Bytes → Except ExchangeError Bytes
  | [] => pure []
  | 37 :: high :: low :: rest => do
    let high ← fromHex high
    let low ← fromHex low
    let decoded ← percentBytes rest
    pure (UInt8.ofNat ((high <<< 4) ||| low) :: decoded)
  | 37 :: _ => .error (invalidRequest "form value contains an incomplete percent escape")
  | byte :: rest => do
    let decoded ← percentBytes rest
    pure ((if byte = 43 then 32 else byte) :: decoded)

def percentDecode (value : String) : Except ExchangeError String := do
  let decoded ← percentBytes (utf8 value)
  okOr (fromUtf8 decoded) (invalidRequest "form value is not UTF-8")

/-- The pairs of a form, none of which may name a parameter twice. -/
def parsePairs : List String → Map String → Except ExchangeError (Map String)
  | [], form => pure form
  | pair :: rest, form => do
    let (key, value) := (splitOnce '=' pair).getD (pair, "")
    let key ← percentDecode key
    let value ← percentDecode value
    ensure (key ∉ form) (invalidRequest ("duplicate `" ++ key ++ "` parameter"))
    parsePairs rest (form.insert key value)

def parseForm (body : Bytes) : Except ExchangeError (Map String) := do
  let text ← okOr (fromUtf8 body) (invalidRequest "request body is not UTF-8")
  parsePairs ((split '&' text).filter fun pair => !pair.isEmpty) ∅

/-- A parameter that has to be there, with something in it. -/
def require (form : Map String) (name : String) : Except ExchangeError String :=
  okOr ((form.lookup name).filter fun value => !value.isEmpty)
    (invalidRequest ("missing `" ++ name ++ "` parameter"))

theorem require_of_lookup {form : Map String} {name value : String}
    (h : form.lookup name = some value) (hne : value.isEmpty = false) :
    require form name = .ok value := by
  rw [require, h, Option.filter_some, hne]
  rfl

/-! ## Forms that need no escapes -/

/-- A text that stands in a form as it is. -/
def Plain (s : String) : Prop := '%' ∉ s.toList ∧ '+' ∉ s.toList ∧ '&' ∉ s.toList

theorem plain_of_all {l : List Char}
    (h : l.all (fun ch => ch ≠ '%' && ch ≠ '+' && ch ≠ '&') = true) : Plain (String.ofList l) := by
  have hch := List.all_eq_true.mp h
  refine ⟨fun hmem => ?_, fun hmem => ?_, fun hmem => ?_⟩ <;>
  · rw [String.toList_ofList] at hmem
    simpa using hch _ hmem

theorem plain_append {s t : String} (hs : Plain s) (ht : Plain t) : Plain (s ++ t) := by
  obtain ⟨h1, h2, h3⟩ := hs
  obtain ⟨h1', h2', h3'⟩ := ht
  refine ⟨?_, ?_, ?_⟩ <;> simp [*]

theorem percentBytes_of_notMem {bytes : Bytes} (hpercent : 37 ∉ bytes) (hplus : 43 ∉ bytes) :
    percentBytes bytes = .ok bytes := by
  induction bytes with
  | nil => rfl
  | cons b bytes ih =>
    simp only [List.mem_cons, not_or] at hpercent hplus
    have hne : b ≠ 37 := Ne.symm hpercent.1
    have hstep : percentBytes (b :: bytes) = (percentBytes bytes).bind fun decoded =>
        pure ((if b = 43 then 32 else b) :: decoded) := by
      rw [percentBytes.eq_4 b bytes (fun _ _ _ heq _ => hne heq) hne]
      rfl
    rw [hstep, ih hpercent.2 hplus.2, if_neg (Ne.symm hplus.1)]
    rfl

theorem percentDecode_plain {s : String} (h : Plain s) : percentDecode s = .ok s := by
  have hbytes : percentBytes (utf8 s) = .ok (utf8 s) :=
    percentBytes_of_notMem (byte_notMem_utf8 (by decide) (by decide) h.1)
      (byte_notMem_utf8 (by decide) (by decide) h.2.1)
  rw [percentDecode, hbytes]
  simp [bind, Except.bind, fromUtf8_utf8, okOr]

/-- The body of a form. -/
def formBody : List (String × String) → String
  | [] => ""
  | [(key, value)] => key ++ "=" ++ value
  | (key, value) :: rest => key ++ "=" ++ value ++ "&" ++ formBody rest

theorem parsePairs_plain {pairs : List (String × String)} {form : Map String}
    (hplain : ∀ q ∈ pairs, Plain q.1 ∧ Plain q.2 ∧ '=' ∉ q.1.toList)
    (hnodup : (pairs.map Prod.fst).Nodup) (hfresh : ∀ q ∈ pairs, q.1 ∉ form) :
    parsePairs (pairs.map fun q => q.1 ++ "=" ++ q.2) form = .ok (insertAll form pairs) := by
  induction pairs generalizing form with
  | nil => rfl
  | cons q pairs ih =>
    obtain ⟨hkey, hvalue, hequals⟩ := hplain q List.mem_cons_self
    rw [List.map_cons, List.nodup_cons] at hnodup
    rw [List.map_cons, parsePairs, splitOnce_append hequals _ rfl]
    simp only [Option.getD_some, percentDecode_plain hkey, percentDecode_plain hvalue, bind_ok,
      ensure_ok]
    refine ⟨q.1, rfl, q.2, rfl, (), hfresh q List.mem_cons_self, ?_⟩
    rw [ih (fun r hr => hplain r (List.mem_cons_of_mem q hr)) hnodup.2 ?_]
    · rfl
    · intro r hr
      rw [Finmap.mem_insert, not_or]
      refine ⟨?_, hfresh r (List.mem_cons_of_mem q hr)⟩
      intro heq
      exact hnodup.1 (heq ▸ List.mem_map_of_mem hr)

theorem split_formBody {pairs : List (String × String)} (hne : pairs ≠ [])
    (hplain : ∀ q ∈ pairs, Plain q.1 ∧ Plain q.2) :
    split '&' (formBody pairs) = pairs.map fun q => q.1 ++ "=" ++ q.2 := by
  have hpair : ∀ q ∈ pairs, '&' ∉ (q.1 ++ "=" ++ q.2).toList := by
    intro q hq
    obtain ⟨hkey, hvalue⟩ := hplain q hq
    simp [hkey.2.2, hvalue.2.2]
  induction pairs with
  | nil => exact absurd rfl hne
  | cons q pairs ih =>
    cases pairs with
    | nil => exact split_of_notMem (hpair q List.mem_cons_self)
    | cons r pairs =>
      show split '&' (q.1 ++ "=" ++ q.2 ++ "&" ++ formBody (r :: pairs)) = _
      rw [split_append (hpair q List.mem_cons_self) _ rfl,
        ih (by simp) (fun s hs => hplain s (List.mem_cons_of_mem q hs))
          (fun s hs => hpair s (List.mem_cons_of_mem q hs))]
      rfl

/-- A form that needs no escapes is read back. -/
theorem parseForm_formBody {pairs : List (String × String)} (hne : pairs ≠ [])
    (hplain : ∀ q ∈ pairs, Plain q.1 ∧ Plain q.2 ∧ '=' ∉ q.1.toList)
    (hnodup : (pairs.map Prod.fst).Nodup) :
    parseForm (utf8 (formBody pairs)) = .ok (ofMembers pairs) := by
  have hsplit := split_formBody hne fun q hq => ⟨(hplain q hq).1, (hplain q hq).2.1⟩
  have hfilter : ((pairs.map fun q => q.1 ++ "=" ++ q.2).filter fun pair => !pair.isEmpty) =
      pairs.map fun q => q.1 ++ "=" ++ q.2 := by
    rw [List.filter_eq_self]
    intro pair hpair
    obtain ⟨q, -, rfl⟩ := List.mem_map.mp hpair
    simp
  simp only [parseForm, fromUtf8_utf8, bind_ok, okOr_ok]
  refine ⟨formBody pairs, rfl, ?_⟩
  rw [hsplit, hfilter]
  exact parsePairs_plain hplain hnodup fun q _ => Finmap.notMem_empty

end PicX.Realm
