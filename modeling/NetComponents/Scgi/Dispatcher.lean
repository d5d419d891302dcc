import NetComponents.Library.Machine
import NetComponents.Library.Search
import NetComponents.Scgi.Response

/-!
# The dispatcher

`scgi::Dispatcher` keeps the handlers in a map under the texts of regular expressions. A request
waits on the strand, and the handler is looked up when its turn comes, in the order of these texts:
the first one that matches the URI, unless the library rejects an expression in front of it.

`guard_t (mtx_);` declares a local and locks nothing. The model takes one call of `add`, `remove`,
`cancel` or `exec` after the other: calls that do not overlap, such as those made on the strand.
-/

namespace NetComponents.Scgi

open Library

/-- `scgi::Request`, with the number of its connection for the weak pointer. -/
structure Request extends RequestBase where
  connection : ℕ
  sender : String

namespace Request

variable (enums : Enums)

def fromJson (self : Request) (source : Json) : Exec Request := do
  let base ← self.toRequestBase.fromJson enums source
  let sender ← (← source.get "from").getString
  return { self with toRequestBase := base, sender := sender }

/-- The constructor, with `json::parse`. -/
def create (parse : Bytes → Exec Json) (connection : ℕ) (msg : Bytes) : Exec Request := do
  fromJson enums { connection := connection, sender := "" } (← parse msg)

end Request

namespace Dispatcher

/-- `std::regex`, made of a text, and `std::regex_match` with a URI; both may throw. -/
abbrev Regex := String → String → Except String Bool

/-- A dispatcher with the requests on its strand. -/
structure State (η : Type) where
  handlers : Std.TreeMap String η
  strand : List Request

/-- What happens to a dispatcher. No call runs while another one does, and the strand runs one
request at a time. -/
inductive Event (η : Type) where
  | add (pattern : String) (handler : Option η)
  | remove (pattern : String)
  | cancel
  | process (request : Request)
  | exec

/-- How a request ends on the strand: its handler is called, it is replied to, or an exception
leaves the strand. -/
inductive Output (η : Type) where
  | called (handler : η) (request : Request)
  | notFound (request : Request)
  | threw (request : Request) (what : String)

/-- No request waits. -/
inductive Fault where
  | disabled
  deriving DecidableEq, Repr

/-- `regex_replace`: every slash with a backslash in front of it. -/
def escape (source : List Char) : List Char :=
  source.flatMap fun c => if c = '/' then ['\\', '/'] else [c]

def createPattern (source : String) : String := String.ofList (escape ("^" ++ source ++ "$").toList)

section Steps

variable {η : Type} (regex : Regex)

def fresh : State η := ⟨∅, []⟩

def add (s : State η) (pattern : String) : Option η → State η
  | none => s
  | some handler => { s with handlers := s.handlers.insert (createPattern pattern) handler }

def remove (s : State η) (pattern : String) : State η :=
  { s with handlers := s.handlers.erase (createPattern pattern) }

def cancel (s : State η) : State η := { s with handlers := ∅ }

/-- The loop over the map. -/
def find (s : State η) (uri : String) : Except String (Option η) :=
  (firstMatch (fun h => regex h.1 uri) s.handlers.toList).map (Option.map Prod.snd)

def process (s : State η) (request : Request) : State η :=
  { s with strand := s.strand ++ [request] }

def exec (s : State η) (request : Request) : Output η :=
  match find regex s request.uri with
  | .error what => .threw request what
  | .ok (some handler) => .called handler request
  | .ok none => .notFound request

def step (s : State η) : Event η → Except Fault (State η × List (Output η))
  | .add pattern handler => .ok (add s pattern handler, [])
  | .remove pattern => .ok (remove s pattern, [])
  | .cancel => .ok (cancel s, [])
  | .process request => .ok (process s request, [])
  | .exec =>
    match s.strand with
    | [] => .error .disabled
    | request :: rest => .ok ({ s with strand := rest }, [exec regex s request])

def machine : Machine Fault (State η) (Event η) (Output η) := ⟨step regex⟩

end Steps

/-- The request that has had its turn. -/
def Output.request {η : Type} : Output η → Request
  | .called _ request => request
  | .notFound request => request
  | .threw request _ => request

/-- The requests that have been given to the dispatcher. -/
def processed {η : Type} (events : List (Event η)) : List Request :=
  events.filterMap fun
    | .process request => some request
    | _ => none

/-- The handlers by the patterns that they were added for. -/
def register {η : Type} (handlers : String → Option η) : Event η → String → Option η
  | .add pattern (some handler) => Function.update handlers pattern (some handler)
  | .remove pattern => Function.update handlers pattern none
  | .cancel => fun _ => none
  | _ => handlers

/-- The handler that is registered for a pattern: the last one that was added for it, unless it
has been removed since. -/
def registered {η : Type} (events : List (Event η)) : String → Option η :=
  events.foldl register fun _ => none

section Patterns

theorem escape_cons (c : Char) (cs : List Char) :
    escape (c :: cs) = (if c = '/' then ['\\', '/'] else [c]) ++ escape cs := by
  simp [escape]

theorem escape_head_ne (cs : List Char) : (escape cs).head? ≠ some '/' := by
  cases cs with
  | nil => simp [escape]
  | cons c cs =>
    rw [escape_cons]
    split_ifs with h
    · simp
    · simpa using h

theorem escape_injective : Function.Injective escape := by
  intro cs
  induction cs with
  | nil =>
    intro ds h
    cases ds with
    | nil => rfl
    | cons d ds =>
      rw [escape_cons] at h
      split_ifs at h <;> simp [escape] at h
  | cons c cs ih =>
    intro ds h
    cases ds with
    | nil =>
      rw [escape_cons] at h
      split_ifs at h <;> simp [escape] at h
    | cons d ds =>
      rw [escape_cons, escape_cons] at h
      -- a slash cannot stand behind a backslash that stands for itself
      split_ifs at h with hc hd hd
      · rw [hc, hd, ih (List.append_cancel_left h)]
      · obtain ⟨-, htail⟩ : '\\' = d ∧ '/' :: escape cs = escape ds := by simpa using h
        exact absurd (by simp [← htail]) (escape_head_ne ds)
      · obtain ⟨-, htail⟩ : c = '\\' ∧ escape cs = '/' :: escape ds := by simpa using h
        exact absurd (by simp [htail]) (escape_head_ne cs)
      · obtain ⟨rfl, htail⟩ : c = d ∧ escape cs = escape ds := by simpa using h
        rw [ih htail]

theorem createPattern_injective : Function.Injective createPattern := by
  intro p q h
  have hescaped := escape_injective (String.ofList_inj.mp h)
  have htext := String.toList_inj.mp hescaped
  have := congrArg String.toList htext
  simpa [← String.toList_inj] using this

end Patterns

section Runs

variable {η : Type} {regex : Regex} {s s' : State η} {events : List (Event η)}
  {out : List (Output η)}

/-- The map is what is registered. -/
structure Tracks (events : List (Event η)) (out : List (Output η)) (s : State η) : Prop where
  handlers : ∀ pattern, s.handlers[createPattern pattern]? = registered events pattern
  keys : ∀ key, key ∈ s.handlers → ∃ pattern, key = createPattern pattern
  strand : out.map Output.request ++ s.strand = processed events

theorem registered_snoc (events : List (Event η)) (e : Event η) :
    registered (events ++ [e]) = register (registered events) e := by
  simp [registered]

theorem processed_snoc (events : List (Event η)) (e : Event η) :
    processed (events ++ [e]) = processed events ++ processed [e] := List.filterMap_append

theorem compare_createPattern (p q : String) :
    compare (createPattern p) (createPattern q) = .eq ↔ q = p := by
  rw [Std.compare_eq_iff_eq]
  exact ⟨fun h => (createPattern_injective h).symm, fun h => by rw [h]⟩

theorem Tracks.step (h : Tracks events out s) {e : Event η} {o : List (Output η)}
    (hstep : Dispatcher.step regex s e = .ok (s', o)) :
    Tracks (events ++ [e]) (out ++ o) s' := by
  have hhandlers := h.handlers
  have hkeys := h.keys
  have hstrand := h.strand
  cases e with
  | add pattern handler =>
    obtain ⟨rfl, rfl⟩ := Prod.mk.inj (Except.ok.inj hstep)
    cases handler with
    | none =>
      refine ⟨?_, hkeys, ?_⟩
      · rw [registered_snoc]
        exact hhandlers
      · simpa [processed_snoc, processed, add] using hstrand
    | some handler =>
      refine ⟨?_, ?_, ?_⟩
      · intro q
        rw [registered_snoc, add, Std.TreeMap.getElem?_insert, hhandlers]
        simp only [compare_createPattern, register, Function.update_apply]
      · intro key hkey
        rcases Std.TreeMap.mem_insert.mp hkey with hkey | hkey
        · exact ⟨pattern, (Std.compare_eq_iff_eq.mp hkey).symm⟩
        · exact hkeys key hkey
      · simpa [processed_snoc, processed, add] using hstrand
  | remove pattern =>
    obtain ⟨rfl, rfl⟩ := Prod.mk.inj (Except.ok.inj hstep)
    refine ⟨?_, ?_, ?_⟩
    · intro q
      rw [registered_snoc, remove, Std.TreeMap.getElem?_erase, hhandlers]
      simp only [compare_createPattern, register, Function.update_apply]
    · intro key hkey
      exact hkeys key (Std.TreeMap.mem_erase.mp hkey).2
    · simpa [processed_snoc, processed, remove] using hstrand
  | cancel =>
    obtain ⟨rfl, rfl⟩ := Prod.mk.inj (Except.ok.inj hstep)
    refine ⟨?_, ?_, ?_⟩
    · intro q
      rw [registered_snoc]
      simp [cancel, register]
    · intro key hkey
      simp [cancel] at hkey
    · simpa [processed_snoc, processed, cancel] using hstrand
  | process request =>
    obtain ⟨rfl, rfl⟩ := Prod.mk.inj (Except.ok.inj hstep)
    refine ⟨?_, hkeys, ?_⟩
    · rw [registered_snoc]
      exact hhandlers
    · rw [processed_snoc, ← hstrand]
      simp [processed, process]
  | exec =>
    cases hwaiting : s.strand with
    | nil => simp [Dispatcher.step, hwaiting] at hstep
    | cons request rest =>
      simp only [Dispatcher.step, hwaiting, Except.ok.injEq, Prod.mk.injEq] at hstep
      obtain ⟨rfl, rfl⟩ := hstep
      have hrequest : (exec regex s request).request = request := by
        unfold exec
        split <;> rfl
      refine ⟨?_, hkeys, ?_⟩
      · rw [registered_snoc]
        exact hhandlers
      · rw [processed_snoc, ← hstrand, hwaiting]
        simp [processed, hrequest]

theorem run_tracks (hrun : (machine regex).run fresh events = .ok (s, out)) :
    Tracks events out s :=
  (machine regex).run_invariant Tracks (fun _ _ _ _ _ _ h hstep => h.step hstep)
    ⟨by simp [fresh, registered], by simp [fresh], rfl⟩ hrun

variable (regex events) in
/-- The expressions that are registered in front of the one of a pattern do not match. -/
def NoneBefore (uri pattern : String) : Prop :=
  ∀ q, (registered events q).isSome → createPattern q < createPattern pattern →
    regex (createPattern q) uri = .ok false

/-- The entries of the map are the registered patterns. -/
theorem Tracks.mem_toList (h : Tracks events out s) {key : String} {handler : η} :
    (key, handler) ∈ s.handlers.toList ↔
      ∃ pattern, key = createPattern pattern ∧ registered events pattern = some handler := by
  rw [Std.TreeMap.mem_toList_iff_getElem?_eq_some]
  constructor
  · intro hkey
    obtain ⟨pattern, rfl⟩ := h.keys key (Std.TreeMap.mem_iff_isSome_getElem?.mpr (by simp [hkey]))
    exact ⟨pattern, rfl, (h.handlers pattern).symm.trans hkey⟩
  · rintro ⟨pattern, rfl, hhandler⟩
    exact (h.handlers pattern).trans hhandler

theorem Tracks.rejectsBelow (h : Tracks events out s) (uri pattern : String) (handler : η) :
    RejectsBelow (fun h => regex h.1 uri) (fun a b => a.1 < b.1) s.handlers.toList
        (createPattern pattern, handler) ↔ NoneBefore regex events uri pattern := by
  constructor
  · intro hrejects q hq hlt
    obtain ⟨g, hg⟩ := Option.isSome_iff_exists.mp hq
    exact hrejects (createPattern q, g) (h.mem_toList.mpr ⟨q, rfl, hg⟩) hlt
  · rintro hbefore ⟨key, g⟩ hmem hlt
    obtain ⟨q, rfl, hg⟩ := h.mem_toList.mp hmem
    exact hbefore q (by simp [hg]) hlt

theorem sorted_toList (s : State η) : s.handlers.toList.Pairwise fun a b => a.1 < b.1 := by
  have hkeys := Std.TreeMap.ordered_keys_toList (t := s.handlers)
  exact hkeys.imp fun h => compareOfLessAndEq_eq_lt.mp h

theorem find_iff (regex : Regex) (s : State η) (uri : String) :
    let search := firstMatch (fun h => regex h.1 uri) s.handlers.toList
    (∀ handler, find regex s uri = .ok (some handler) ↔
      ∃ key, search = .ok (some (key, handler))) ∧
    (find regex s uri = .ok none ↔ search = .ok none) ∧
    (∀ what, find regex s uri = .error what ↔ search = .error what) := by
  unfold find
  cases firstMatch (fun h => regex h.1 uri) s.handlers.toList with
  | error e => simp [Except.map]
  | ok found => simp [Except.map]

/-- What the loop over the map finds. -/
theorem Tracks.find_spec (h : Tracks events out s) (regex : Regex) (uri : String) :
    (∀ handler, find regex s uri = .ok (some handler) ↔ ∃ pattern,
      registered events pattern = some handler ∧ regex (createPattern pattern) uri = .ok true ∧
      NoneBefore regex events uri pattern) ∧
    (find regex s uri = .ok none ↔ ∀ pattern, (registered events pattern).isSome →
      regex (createPattern pattern) uri = .ok false) ∧
    (∀ what, find regex s uri = .error what ↔ ∃ pattern, (registered events pattern).isSome ∧
      regex (createPattern pattern) uri = .error what ∧ NoneBefore regex events uri pattern) := by
  have hr : ∀ a b : String × η, a.1 < b.1 → ¬b.1 < a.1 := fun _ _ => String.lt_asymm
  have hsorted := sorted_toList s
  obtain ⟨hsome, hnone, herror⟩ := find_iff regex s uri
  refine ⟨?_, ?_, ?_⟩
  · intro handler
    rw [hsome]
    constructor
    · rintro ⟨key, hkey⟩
      obtain ⟨hmem, hmatches, hrejects⟩ := (firstMatch_some_iff hr hsorted).mp hkey
      obtain ⟨pattern, rfl, hhandler⟩ := h.mem_toList.mp hmem
      exact ⟨pattern, hhandler, hmatches, (h.rejectsBelow uri pattern handler).mp hrejects⟩
    · rintro ⟨pattern, hhandler, hmatches, hbefore⟩
      refine ⟨createPattern pattern, (firstMatch_some_iff hr hsorted).mpr ⟨?_, hmatches, ?_⟩⟩
      · exact h.mem_toList.mpr ⟨pattern, rfl, hhandler⟩
      · exact (h.rejectsBelow uri pattern handler).mpr hbefore
  · rw [hnone, firstMatch_none_iff]
    constructor
    · intro hall pattern hpattern
      obtain ⟨handler, hhandler⟩ := Option.isSome_iff_exists.mp hpattern
      exact hall (createPattern pattern, handler) (h.mem_toList.mpr ⟨pattern, rfl, hhandler⟩)
    · rintro hall ⟨key, handler⟩ hmem
      obtain ⟨pattern, rfl, hhandler⟩ := h.mem_toList.mp hmem
      exact hall pattern (by simp [hhandler])
  · intro what
    rw [herror, firstMatch_error_iff hr hsorted]
    constructor
    · rintro ⟨⟨key, handler⟩, hmem, hfails, hrejects⟩
      obtain ⟨pattern, rfl, hhandler⟩ := h.mem_toList.mp hmem
      exact ⟨pattern, by simp [hhandler], hfails, (h.rejectsBelow uri pattern handler).mp hrejects⟩
    · rintro ⟨pattern, hpattern, hfails, hbefore⟩
      obtain ⟨handler, hhandler⟩ := Option.isSome_iff_exists.mp hpattern
      exact ⟨(createPattern pattern, handler), h.mem_toList.mpr ⟨pattern, rfl, hhandler⟩, hfails,
        (h.rejectsBelow uri pattern handler).mpr hbefore⟩

theorem exec_iff (regex : Regex) (s : State η) (request : Request) :
    (∀ handler, exec regex s request = .called handler request ↔
      find regex s request.uri = .ok (some handler)) ∧
    (exec regex s request = .notFound request ↔ find regex s request.uri = .ok none) ∧
    (∀ what, exec regex s request = .threw request what ↔
      find regex s request.uri = .error what) := by
  unfold exec
  cases find regex s request.uri with
  | error what => simp
  | ok found => cases found <;> simp

/-- As long as the calls do not overlap: requests have their turn once, in the order in which they
came. At its turn a request goes to the handler whose expression is the first, in the order of the
texts, of those registered at this time that match its URI; it is answered with 404 if all of them
can be tested and none matches, and an exception leaves the strand if the library rejects one that
no match precedes. -/
theorem exec_first_registered (hrun : (machine regex).run fresh events = .ok (s, out)) :
    out.map Output.request ++ s.strand = processed events ∧
    ∀ request rest, s.strand = request :: rest → ∃ o,
      step regex s .exec = .ok ({ s with strand := rest }, [o]) ∧
      (∀ handler, o = .called handler request ↔ ∃ pattern,
        registered events pattern = some handler ∧
        regex (createPattern pattern) request.uri = .ok true ∧
        NoneBefore regex events request.uri pattern) ∧
      (o = .notFound request ↔ ∀ pattern, (registered events pattern).isSome →
        regex (createPattern pattern) request.uri = .ok false) ∧
      (∀ what, o = .threw request what ↔ ∃ pattern, (registered events pattern).isSome ∧
        regex (createPattern pattern) request.uri = .error what ∧
        NoneBefore regex events request.uri pattern) := by
  have h := run_tracks hrun
  refine ⟨h.strand, ?_⟩
  intro request rest hwaiting
  refine ⟨exec regex s request, by simp [step, hwaiting], ?_⟩
  obtain ⟨hcalled, hnone, hthrew⟩ := h.find_spec regex request.uri
  refine ⟨fun handler => ?_, ?_, fun what => ?_⟩
  · rw [← hcalled]
    exact (exec_iff regex s request).1 handler
  · rw [← hnone]
    exact (exec_iff regex s request).2.1
  · rw [← hthrew]
    exact (exec_iff regex s request).2.2 what

/-- Two handlers are added and one is removed again; the expressions are compared as texts. -/
theorem exec_first_registered_removed :
    ∃ (s : State ℕ) (o : Output ℕ),
      (machine fun exp uri => .ok (exp = "^" ++ uri ++ "$")).run fresh
        [.add "a" (some 1), .add "b" (some 2), .remove "a",
          .process { uri := "a", connection := 0, sender := "" }] = .ok (s, []) ∧
      step (fun exp uri => .ok (exp = "^" ++ uri ++ "$")) s .exec =
        .ok ({ s with strand := [] }, [o]) ∧
      o = .notFound { uri := "a", connection := 0, sender := "" } := by
  let events : List (Event ℕ) := [.add "a" (some 1), .add "b" (some 2), .remove "a",
    .process { uri := "a", connection := 0, sender := "" }]
  have hrun : (machine fun exp uri => .ok (exp = "^" ++ uri ++ "$")).run (fresh : State ℕ) events =
      .ok (⟨((∅ : Std.TreeMap String ℕ).insert (createPattern "a") 1 |>.insert
        (createPattern "b") 2).erase (createPattern "a"),
        [{ uri := "a", connection := 0, sender := "" }]⟩, []) := rfl
  obtain ⟨-, hexec⟩ := exec_first_registered hrun
  obtain ⟨o, hstep, -, hnone, -⟩ := hexec _ [] rfl
  refine ⟨_, o, hrun, hstep, hnone.mpr ?_⟩
  intro pattern hpattern
  have hb : pattern = "b" := by
    by_contra hne
    have : registered events pattern = none := by
      by_cases ha : pattern = "a"
      · simp [events, registered, register, ha]
      · simp [events, registered, register, ha, hne]
    simp [this] at hpattern
  subst hb
  decide

end Runs
end Dispatcher
end NetComponents.Scgi
