import NetComponents.Redis.Removex

/-!
# Scanning a hash

`Hash::scan` returns fields and values in one list, each field before its value. It shares its code
with the scans for keys, where empty strings are left out one by one: an empty value, or an empty
field, shifts all that follows. `hashScan_paired_iff` says which pages are returned in pairs.
-/

namespace NetComponents

namespace Redis

section Client

variable {σ : Type} (redis : Redis σ)

/-- `BaseSet::scan`, for the set of the given key. -/
def baseScan (key cmd : String) (cursor : Cursor) (pattern : String) (limit : ℕ) :
    Callback σ (Cursor × List String) :=
  redis.scan [cmd, key] cursor pattern limit

/-- `Hash::scan` -/
def hashScan (key : String) (cursor : Cursor) (pattern : String) (limit : ℕ) :
    Callback σ (Cursor × List String) :=
  redis.baseScan key "HSCAN" cursor pattern limit

end Client

/-- The values of the fields that a hash has. -/
abbrev Content := String → Option String

abbrev Entry := String × String

/-- The reply to `HSCAN`. -/
def pageReply (cursor : Cursor) (page : List Entry) : Reply :=
  .array [.string cursor, .array (page.flatMap fun e => [.string e.1, .string e.2])]

/-- Fields of a hash, with their values. -/
def Content.Page (hash : Content) (page : List Entry) : Prop := ∀ e ∈ page, hash e.1 = some e.2

instance (hash : Content) (page : List Entry) : Decidable (hash.Page page) :=
  inferInstanceAs (Decidable (∀ e ∈ page, hash e.1 = some e.2))

/-- Every other element is a field, and the one behind it is its value. -/
structure Paired (hash : Content) (xs : List String) : Prop where
  even : Even xs.length
  value : ∀ i f v, xs[2 * i]? = some f → xs[2 * i + 1]? = some v → hash f = some v

/-- One of the two strings is empty, and the other is not. -/
def Entry.half (e : Entry) : Bool := (e.1 == "") != (e.2 == "")

/-- The strings of a page that are not empty. -/
def strings (page : List Entry) : List String :=
  (page.flatMap fun e => [e.1, e.2]).filter (· != "")

/-- The entries of a page stay in pairs, behind a value that has lost its field or not: an entry may
lack the field only, and from there to the next entry that lacks one of its strings, every value is
by chance a field of the hash itself, with the next string as its value. -/
def Survives (hash : Content) : Option String → List Entry → Prop
  | none, [] => True
  | some _, [] => False
  | none, e :: page =>
    if e.half then e.1 = "" ∧ Survives hash (some e.2) page else Survives hash none page
  | some v, e :: page =>
    -- of the two strings, the one that is not empty
    if e.half then hash v = some (e.1 ++ e.2) ∧ Survives hash none page
    else if e.1 = "" then Survives hash (some v) page
    else hash v = some e.1 ∧ Survives hash (some e.2) page

variable {hash : Content}

theorem paired_nil : Paired hash [] := ⟨Even.zero, by simp⟩

theorem not_paired_singleton (x : String) : ¬ Paired hash [x] := by
  intro h
  have heven := h.even
  simp at heven

theorem paired_cons_cons (f v : String) (xs : List String) :
    Paired hash (f :: v :: xs) ↔ hash f = some v ∧ Paired hash xs := by
  constructor
  · intro h
    refine ⟨h.value 0 f v rfl rfl, ?_, fun i f' v' hf hv => h.value (i + 1) f' v' ?_ ?_⟩
    · simpa [Nat.even_add] using h.even
    · simpa [Nat.mul_add] using hf
    · simpa [Nat.mul_add] using hv
  · rintro ⟨hentry, h⟩
    refine ⟨by simpa [Nat.even_add] using h.even, fun i f' v' hf hv => ?_⟩
    cases i with
    | zero =>
      simp only [Nat.mul_zero, Nat.zero_add, List.getElem?_cons_zero, List.getElem?_cons_succ,
        Option.some.injEq] at hf hv
      rw [← hf, ← hv]
      exact hentry
    | succ i =>
      rw [Nat.mul_add] at hf hv
      exact h.value i f' v' hf hv

theorem ne_empty_of_mem_strings {page : List Entry} {x : String} (hx : x ∈ strings page) :
    x ≠ "" := by
  simpa using (List.mem_filter.mp hx).2

theorem strings_cons (e : Entry) (page : List Entry) :
    strings (e :: page) = [e.1, e.2].filter (· != "") ++ strings page := by
  rw [strings, List.flatMap_cons, List.filter_append]
  rfl

/-- Nothing is shifted where no entry lacks one of its strings. -/
theorem survives_whole {page : List Entry} (h : ∀ e ∈ page, e.half = false) :
    Survives hash none page := by
  induction page with
  | nil => trivial
  | cons e page ih =>
    obtain ⟨he, hrest⟩ := List.forall_mem_cons.mp h
    rw [Survives, if_neg (by simp [he])]
    exact ih hrest

/-- A field without its value is followed by a string that is not empty, or by nothing. -/
theorem not_paired_field {f : String} {page : List Entry} (hf : hash f = some "") :
    ¬ Paired hash (f :: strings page) := by
  intro h
  cases hrest : strings page with
  | nil =>
    rw [hrest] at h
    exact not_paired_singleton f h
  | cons x xs =>
    rw [hrest, paired_cons_cons, hf] at h
    have hx : x ∈ strings page := by
      rw [hrest]
      exact List.mem_cons_self
    exact ne_empty_of_mem_strings hx (Option.some.inj h.1).symm

theorem paired_strings_iff {page : List Entry} (hpage : hash.Page page) :
    (Paired hash (strings page) ↔ Survives hash none page) ∧
      ∀ p ≠ "", Paired hash (p :: strings page) ↔ Survives hash (some p) page := by
  induction page with
  | nil =>
    exact ⟨iff_of_true paired_nil trivial, fun p _ => iff_of_false (not_paired_singleton p) id⟩
  | cons e page ih =>
    obtain ⟨hentry, hrest⟩ := List.forall_mem_cons.mp hpage
    obtain ⟨hnone, hsome⟩ := ih hrest
    rw [strings_cons]
    obtain ⟨f, v⟩ := e
    by_cases hf : f = "" <;> by_cases hv : v = ""
    · simpa [Survives, Entry.half, hf, hv] using And.intro hnone hsome
    · subst hf
      simp [Survives, Entry.half, hv, hsome v hv, paired_cons_cons, hnone]
    -- a field without a value: what comes next cannot be its value
    · subst hv
      have hlost : ¬ Paired hash (f :: strings page) := not_paired_field hentry
      simp [Survives, Entry.half, hf, hlost, paired_cons_cons, hnone]
    · have hvalue : hash f = some v := hentry
      simp [Survives, Entry.half, hf, hv, paired_cons_cons, hvalue, hnone, hsome v hv]

theorem scanReply_pageReply (cursor : Cursor) (page : List Entry) :
    scanReply (pageReply cursor page) = (cursor, strings page) := by
  have hstrings : (page.flatMap fun e => [Reply.string e.1, Reply.string e.2]).map Reply.str =
      page.flatMap fun e => [e.1, e.2] := by
    rw [List.map_flatMap]
    rfl
  simp only [scanReply, pageReply, Reply.isArray, Reply.elements, Reply.str, if_true, hstrings]
  rfl

/-- A page of a hash is returned in pairs if no entry of it has exactly one empty string, and
otherwise only by chance. -/
theorem hashScan_paired_iff {σ : Type} (redis : Redis σ) {s s' : σ} {key : String}
    {cursor cursor' : Cursor} {pattern : String} {limit : ℕ} {page : List Entry}
    (hpage : hash.Page page)
    (hrun : redis.pool.run (redis.pool.get s)
        (["HSCAN", key] ++ cursor :: scanOptions pattern limit) =
      (s', some (pageReply cursor' page))) :
    ∃ xs, redis.hashScan key cursor pattern limit s = (s', .ok (cursor', xs)) ∧
      (Paired hash xs ↔ Survives hash none page) := by
  refine ⟨strings page, ?_, (paired_strings_iff hpage).1⟩
  simp only [hashScan, baseScan, scan, Redis3m.word_eq, exec_answered redis hrun rfl,
    scanReply_pageReply]

/-- A server with one hash, which returns it in one page. -/
def hashServer (page : List Entry) : Redis Unit :=
  ⟨⟨id, fun s _ => (s, some (pageReply Cursor.invalid page))⟩, 50, .looping⟩

/-- The content of a hash with the given entries. -/
def content (page : List Entry) : Content := fun field => page.lookup field

/-- Two fields with values, and one entry without field and value. -/
theorem hashScan_paired_iff_colors :
    ∃ xs, (hashServer [("red", "1"), ("", ""), ("blue", "2")]).hashScan "colors" Cursor.invalid "" 0
        () = ((), .ok (Cursor.invalid, xs)) ∧
      Paired (content [("red", "1"), ("", ""), ("blue", "2")]) xs := by
  have hpage : (content [("red", "1"), ("", ""), ("blue", "2")]).Page
      [("red", "1"), ("", ""), ("blue", "2")] := by decide
  obtain ⟨xs, hxs, hiff⟩ :=
    hashScan_paired_iff (hashServer [("red", "1"), ("", ""), ("blue", "2")]) hpage rfl
  exact ⟨xs, hxs, hiff.mpr (survives_whole (by decide))⟩

/-- The value of `red` is empty, and `blue` takes its place. -/
theorem hashScan_shifts :
    (content [("red", ""), ("blue", "2")]).Page [("red", ""), ("blue", "2")] ∧
      (hashServer [("red", ""), ("blue", "2")]).hashScan "colors" Cursor.invalid "" 0 () =
        ((), .ok (Cursor.invalid, ["red", "blue", "2"])) ∧
      ¬ Paired (content [("red", ""), ("blue", "2")]) ["red", "blue", "2"] := by
  refine ⟨by decide, rfl, ?_⟩
  intro h
  have heven := h.even
  revert heven
  decide

end Redis

end NetComponents
