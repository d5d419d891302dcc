import NetComponents.Library.Exec

/-!
# Requests and responses as JSON

A response is written to a JSON object, which leaves out an empty session and empty
data, and read back by the setters of a response that already exists. All setters
but `set_uri` replace the old value: `set_uri` appends to the old URI, character by
character, dropping repeated separators. The conversion between a method and its
name is a parameter.
-/

namespace NetComponents.Scgi

open Library

/-- `nlohmann::json`; a floating point number is known by its bits. -/
inductive Json where
  | null
  | boolean (value : Bool)
  | integer (value : ℤ)
  | float (bits : UInt64)
  | string (value : String)
  | array (elements : List Json)
  | object (fields : List (String × Json))

namespace Json

def isNull : Json → Bool
  | null => true
  | _ => false

/-- `empty()`: a string is never empty in this sense. -/
def empty : Json → Bool
  | null => true
  | array elements => elements.isEmpty
  | object fields => fields.isEmpty
  | _ => false

/-- `j[name] = value`, for an object or null. -/
def set (j : Json) (name : String) (value : Json) : Json :=
  match j with
  | object fields => object ((name, value) :: fields.filter fun field => field.1 != name)
  | _ => object [(name, value)]

def find (j : Json) (name : String) : Option Json :=
  match j with
  | object fields => fields.lookup name
  | _ => none

/-- `at(name)` -/
def get (j : Json) (name : String) : Exec Json :=
  match j.find name with
  | some value => .ok value
  | none => .error (.exception ("key '" ++ name ++ "' not found"))

/-- Conversion to an integer type, before it is cut to the width of the type. -/
def toInt : Json → Exec ℤ
  | integer value => .ok value
  | boolean value => .ok (if value then 1 else 0)
  | float bits => .ok (Float.ofBits bits).toInt64.toInt
  | _ => .error (.exception "type must be number")

/-- `get<string>()` -/
def getString : Json → Exec String
  | string value => .ok value
  | _ => .error (.exception "type must be string")

theorem lookup_filter_ne {name other : String} (h : other ≠ name)
    (fields : List (String × Json)) :
    (fields.filter fun field => field.1 != name).lookup other = fields.lookup other := by
  induction fields with
  | nil => rfl
  | cons field fields ih =>
    obtain ⟨key, value⟩ := field
    by_cases hkey : key = name
    · subst hkey
      rw [List.filter_cons_of_neg (by simp), ih, List.lookup_cons, beq_false_of_ne h]
    · rw [List.filter_cons_of_pos (by simp [hkey]), List.lookup_cons, List.lookup_cons, ih]

@[simp] theorem find_null (name : String) : null.find name = none := rfl

@[simp] theorem find_set_self (j : Json) (name : String) (value : Json) :
    (j.set name value).find name = some value := by
  cases j <;> simp [set, find]

theorem find_set_ne (j : Json) {name other : String} (h : other ≠ name) (value : Json) :
    (j.set name value).find other = j.find other := by
  cases j with
  | object fields =>
    simp only [set, find, List.lookup_cons, beq_false_of_ne h]
    exact lookup_filter_ne h fields
  | _ => simp [set, find, List.lookup_cons, beq_false_of_ne h]

theorem get_of_find {j : Json} {name : String} {value : Json} (h : j.find name = some value) :
    j.get name = .ok value := by
  simp [get, h]

end Json

/-- `RequestBase::Method` -/
inductive Method where
  | kUNKNOWN
  | kGET
  | kPOST
  | kPUT
  | kPATCH
  | kDELETE
  | kEVENT
  deriving DecidableEq, Repr

/-- `method_map` -/
def methodMap : List (Method × String) :=
  [(.kUNKNOWN, "UNKNOWN"), (.kGET, "GET"), (.kPOST, "POST"), (.kPUT, "PUT"), (.kPATCH, "PATCH"),
    (.kDELETE, "DELETE"), (.kEVENT, "EVENT")]

/-- `enums::toString` and `enums::toEnum` for methods. -/
structure Enums where
  toString : List (Method × String) → Method → String
  toEnum : String → List (Method × String) → Exec Method

/-- On the method table, `toEnum` finds the method that `toString` has named. -/
def Enums.Inverse (enums : Enums) : Prop :=
  ∀ method, enums.toEnum (enums.toString methodMap method) methodMap = .ok method

structure RequestBase where
  id : UInt32 := 0
  method : Method := .kUNKNOWN
  uri : String := ""
  sessionId : String := ""
  data : Json := .null

namespace RequestBase

def isSeparator (c : Char) : Bool := c == '/' || c == '\\'

/-- The body of the loop of `set_uri`, on `uri_` and `sprev`. -/
def uriStep (s : List Char × Bool) (c : Char) : List Char × Bool :=
  if isSeparator c then
    if s.2 then s else (s.1 ++ [c], true)
  else ((if s.1 = [] then s.1 ++ ['/'] else s.1) ++ [c], false)

/-- `set_uri`. What it does after the loop has no effect. -/
def setUri (self : RequestBase) (value : String) : RequestBase :=
  { self with uri := String.ofList (value.toList.foldl uriStep (self.uri.toList, false)).1 }

variable (enums : Enums)

def toJson (self : RequestBase) : Json :=
  let j := Json.null.set "id" (.integer self.id.toNat)
  let j := j.set "uri" (.string self.uri)
  let j := j.set "method" (.string (enums.toString methodMap self.method))
  let j := if self.sessionId ≠ "" then j.set "sessionId" (.string self.sessionId) else j
  if !self.data.empty && !self.data.isNull then j.set "data" self.data else j

def fromJson (self : RequestBase) (source : Json) : Exec RequestBase := do
  let id ← (← source.get "id").toInt
  let self := { self with id := UInt32.ofInt id }
  let name ← (← source.get "method").getString
  let method ← enums.toEnum name methodMap
  let self := { self with method := method }
  let uri ← (← source.get "uri").getString
  let self := self.setUri uri
  let self := match source.find "data" with
    | some data => { self with data := data }
    | none => { self with data := .null }
  match source.find "sessionId" with
  | some value => do
    let sessionId ← value.getString
    return { self with sessionId := sessionId }
  | none => return { self with sessionId := "" }

section Uri

theorem uriStep_separator {s : List Char × Bool} {c : Char} (hc : isSeparator c = true) :
    uriStep s c = if s.2 then s else (s.1 ++ [c], true) := by
  rw [uriStep, if_pos hc]

theorem uriStep_letter {s : List Char × Bool} {c : Char} (hc : isSeparator c = false) :
    uriStep s c = ((if s.1 = [] then s.1 ++ ['/'] else s.1) ++ [c], false) := by
  rw [uriStep, hc]
  rfl

/-- What `set_uri` makes of a text: it starts with a separator, and no separator follows
another one. -/
structure Tidy (uri : List Char) : Prop where
  rooted : ∀ c ∈ uri.head?, isSeparator c = true
  spaced : uri.IsChain fun a b => ¬(isSeparator a = true ∧ isSeparator b = true)

/-- The state of the loop of `set_uri` that started on an empty URI. -/
structure TidyState (s : List Char × Bool) : Prop where
  tidy : Tidy s.1
  previous : ∀ c ∈ s.1.getLast?, isSeparator c = true → s.2 = true

theorem TidyState.step {s : List Char × Bool} (h : TidyState s) (c : Char) :
    TidyState (uriStep s c) := by
  cases hc : isSeparator c with
  | true =>
    rw [uriStep_separator hc]
    split_ifs with hprevious
    · exact h
    · refine ⟨⟨?_, ?_⟩, by simp⟩
      · cases huri : s.1 with
        | nil => simpa using hc
        | cons a uri => simpa [huri] using h.tidy.rooted
      · rw [List.isChain_append]
        refine ⟨h.tidy.spaced, List.isChain_singleton c, ?_⟩
        intro a ha b _ hboth
        exact hprevious (h.previous a ha hboth.1)
  | false =>
    rw [uriStep_letter hc]
    refine ⟨⟨?_, ?_⟩, by simp [hc]⟩
    · cases huri : s.1 with
      | nil => simp [isSeparator]
      | cons a uri => simpa [huri] using h.tidy.rooted
    · rw [List.isChain_append]
      refine ⟨?_, List.isChain_singleton c, ?_⟩
      · split_ifs with hempty
        · rw [hempty]
          exact List.isChain_singleton _
        · exact h.tidy.spaced
      · intro a _ b hb hboth
        obtain rfl : b = c := by simpa using hb.symm
        rw [hc] at hboth
        cases hboth.2

theorem tidyState_foldl (value : List Char) {s : List Char × Bool} (h : TidyState s) :
    TidyState (value.foldl uriStep s) := by
  induction value generalizing s with
  | nil => exact h
  | cons c value ih => exact ih (h.step c)

theorem foldl_uriStep_tidy (value : List Char)
    (hspaced : value.IsChain fun a b => ¬(isSeparator a = true ∧ isSeparator b = true))
    {s : List Char × Bool}
    (hrooted : s.1 = [] → ∀ c ∈ value.head?, isSeparator c = true)
    (hprevious : s.2 = true → ∀ c ∈ value.head?, isSeparator c = false) :
    (value.foldl uriStep s).1 = s.1 ++ value := by
  induction value generalizing s with
  | nil => simp
  | cons c value ih =>
    have hhead := hspaced.rel_head?
    rw [List.foldl_cons]
    cases hc : isSeparator c with
    | true =>
      have hfirst : ¬s.2 = true := by
        intro h
        have := hprevious h c rfl
        simp [hc] at this
      rw [uriStep_separator hc, if_neg hfirst, ih hspaced.tail (by simp)]
      · simp
      · intro _ a ha
        have hpair := hhead ha
        simpa [hc] using hpair
    | false =>
      have hnonempty : s.1 ≠ [] := by
        intro h
        have := hrooted h c rfl
        simp [hc] at this
      rw [uriStep_letter hc, if_neg hnonempty, ih hspaced.tail (by simp)]
      · simp
      · simp

/-- On a text that `set_uri` has made, `set_uri` only appends. -/
theorem setUri_tidy (self : RequestBase) {value : String} (h : Tidy value.toList) :
    (self.setUri value).uri = self.uri ++ value := by
  unfold setUri
  rw [foldl_uriStep_tidy value.toList h.spaced (fun _ => h.rooted) (by simp)]
  rw [← String.toList_append, String.ofList_toList]

theorem tidy_setUri {self : RequestBase} (h : self.uri = "") (value : String) :
    Tidy (self.setUri value).uri.toList := by
  unfold setUri
  rw [String.toList_ofList, h]
  apply (tidyState_foldl value.toList _).tidy
  exact ⟨⟨by simp, List.isChain_nil⟩, by simp⟩

end Uri

end RequestBase

structure Response extends RequestBase where
  code : Int32
  status : String

namespace Response

/-- `init`, on an object without a request. -/
def init (source : RequestBase) : RequestBase :=
  let self : RequestBase := { id := source.id }
  { self.setUri source.uri with method := source.method }

/-- `Response(from, data)` -/
def ofData (source : RequestBase) (data : Json) : Response :=
  { init source with data := data, code := 200, status := "OK" }

/-- `Response(from, code, status)` -/
def ofStatus (source : RequestBase) (code : Int32) (status : String) : Response :=
  { init source with code := code, status := status }

/-- A response as a constructor leaves it. -/
inductive Constructed : Response → Prop where
  | data (source : RequestBase) (data : Json) : Constructed (ofData source data)
  | status (source : RequestBase) (code : Int32) (status : String) :
      Constructed (ofStatus source code status)

variable (enums : Enums)

def toJson (self : Response) : Json :=
  let j := self.toRequestBase.toJson enums
  let j := j.set "code" (.integer self.code.toInt)
  j.set "status" (.string self.status)

def fromJson (self : Response) (source : Json) : Exec Response := do
  let base ← self.toRequestBase.fromJson enums source
  let code ← (← source.get "code").toInt
  let status ← (← source.get "status").getString
  return { base with code := Int32.ofInt code, status := status }

section RoundTrip

theorem find_toJson_base (r : RequestBase) :
    (r.toJson enums).find "id" = some (.integer r.id.toNat) ∧
      (r.toJson enums).find "uri" = some (.string r.uri) ∧
      (r.toJson enums).find "method" = some (.string (enums.toString methodMap r.method)) := by
  unfold RequestBase.toJson
  simp only
  split_ifs <;> simp (disch := decide) [Json.find_set_ne]

theorem find_toJson_sessionId (r : RequestBase) :
    (r.toJson enums).find "sessionId" =
      if r.sessionId ≠ "" then some (.string r.sessionId) else none := by
  unfold RequestBase.toJson
  simp only
  split_ifs <;> simp (disch := decide) [Json.find_set_ne]

theorem find_toJson_data (r : RequestBase) :
    (r.toJson enums).find "data" =
      if !r.data.empty && !r.data.isNull then some r.data else none := by
  unfold RequestBase.toJson
  simp only
  split_ifs <;> simp (disch := decide) [Json.find_set_ne]

theorem find_toJson (r : Response) {name : String} (hcode : name ≠ "code")
    (hstatus : name ≠ "status") :
    (r.toJson enums).find name = (r.toRequestBase.toJson enums).find name := by
  unfold toJson
  simp only
  rw [Json.find_set_ne _ hstatus, Json.find_set_ne _ hcode]

theorem present_eq (j : Json) : (!j.empty && !j.isNull) = !j.empty := by
  cases j <;> simp [Json.empty, Json.isNull]

theorem ofInt_toNat (n : UInt32) : UInt32.ofInt n.toNat = n := by
  rw [← UInt32.toNat_inj]
  simp [UInt32.ofInt, Int.emod_eq_of_lt, n.toNat_lt]

/-- What a response is read back as. -/
theorem fromJson_toJson (henums : enums.Inverse) (r t : Response) :
    t.fromJson enums (r.toJson enums) =
      .ok { r with
        uri := (t.setUri r.uri).uri
        data := if r.data.empty then .null else r.data } := by
  obtain ⟨hid, huri, hmethod⟩ := find_toJson_base enums r.toRequestBase
  rw [← find_toJson enums r (by decide) (by decide)] at hid huri hmethod
  have hsession := find_toJson_sessionId enums r.toRequestBase
  rw [← find_toJson enums r (by decide) (by decide)] at hsession
  have hdata := find_toJson_data enums r.toRequestBase
  rw [← find_toJson enums r (by decide) (by decide)] at hdata
  have hcode : (r.toJson enums).find "code" = some (.integer r.code.toInt) := by
    unfold toJson
    simp (disch := decide) [Json.find_set_ne]
  have hstatus : (r.toJson enums).find "status" = some (.string r.status) := by
    unfold toJson
    simp
  unfold fromJson RequestBase.fromJson
  rw [Json.get_of_find hid, Json.get_of_find hmethod, Json.get_of_find huri,
    Json.get_of_find hcode, Json.get_of_find hstatus, hsession, hdata]
  rw [present_eq]
  cases hempty : r.data.empty <;> by_cases hnone : r.sessionId = "" <;>
    simp [Json.toInt, Json.getString, henums r.method, ofInt_toNat, hnone, RequestBase.setUri]

theorem tidy_init (source : RequestBase) : RequestBase.Tidy (init source).uri.toList := by
  change RequestBase.Tidy (({ id := source.id } : RequestBase).setUri source.uri).uri.toList
  exact RequestBase.tidy_setUri rfl source.uri

theorem Constructed.tidy {r : Response} (h : Constructed r) : RequestBase.Tidy r.uri.toList := by
  cases h with
  | data source data => exact tidy_init source
  | status source code status => exact tidy_init source

/-- A response is read back as it was exactly by a response without a URI, and if its data
are not an empty array or object. -/
theorem fromJson_toJson_iff (henums : enums.Inverse) {r : Response} (hr : Constructed r)
    (t : Response) :
    ∃ t', t.fromJson enums (r.toJson enums) = .ok t' ∧
      (t' = r ↔ t.uri = "" ∧ (r.data.empty = true → r.data = .null)) := by
  refine ⟨_, fromJson_toJson enums henums r t, ?_⟩
  rw [RequestBase.setUri_tidy _ hr.tidy]
  have huri : t.uri ++ r.uri = r.uri ↔ t.uri = "" := by
    rw [← String.toList_inj, ← String.toList_inj, String.toList_append]
    simp
  have hdata : (if r.data.empty then Json.null else r.data) = r.data ↔
      (r.data.empty = true → r.data = .null) := by
    split_ifs with hempty
    · simp [hempty, eq_comm]
    · simp [hempty]
  rw [← huri, ← hdata]
  constructor
  · intro h
    have hbase := congrArg Response.toRequestBase h
    exact ⟨congrArg RequestBase.uri hbase, congrArg RequestBase.data hbase⟩
  · rintro ⟨h₁, h₂⟩
    rw [h₁, h₂]

/-- Names and methods are looked up in the table. -/
def tableEnums : Enums where
  toString table method := (table.lookup method).getD ""
  toEnum name table :=
    match table.find? fun entry => entry.2 == name with
    | some entry => .ok entry.1
    | none => .error (.exception "unknown enumeration value")

theorem inverse_tableEnums : tableEnums.Inverse := by
  intro method
  cases method <;> rfl

/-- A response about `/b` is read by one without a URI. -/
theorem fromJson_toJson_iff_no_uri :
    ∃ t', (ofData {} .null).fromJson tableEnums
        ((ofData { id := 7, method := .kGET, uri := "/b" } (.string "x")).toJson tableEnums) =
          .ok t' ∧
      (t' = ofData { id := 7, method := .kGET, uri := "/b" } (.string "x") ↔
        (ofData {} .null).uri = "" ∧
          ((Json.string "x").empty = true → Json.string "x" = .null)) :=
  fromJson_toJson_iff tableEnums inverse_tableEnums (.data _ _) _

/-- A response about `/a` that reads one about `/b` ends up with the URI `/a/b`, and an empty
array is read as null. -/
theorem fromJson_keeps_old_uri :
    (∃ t', (ofData { uri := "/a" } .null).fromJson tableEnums
        ((ofData { uri := "/b" } .null).toJson tableEnums) = .ok t' ∧ t'.uri = "/a/b" ∧
          (ofData { uri := "/b" } .null).uri = "/b") ∧
      ∃ t', (ofData {} .null).fromJson tableEnums
        ((ofData {} (.array [])).toJson tableEnums) = .ok t' ∧ t'.data = .null ∧
          (ofData {} (.array [])).data = .array [] :=
  ⟨⟨_, fromJson_toJson tableEnums inverse_tableEnums _ _, by decide, by decide⟩,
    _, fromJson_toJson tableEnums inverse_tableEnums _ _, rfl, rfl⟩

end RoundTrip

end Response

end NetComponents.Scgi
