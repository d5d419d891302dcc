import NetComponents.Redis.Client

/-!
# Removing keys by pattern

`removex` scans the keyspace page by page and removes the keys of each page. As a
removal may disturb the iteration, it starts over after each one. The server is
given by what `SCAN` guarantees: an iteration from cursor 0 ends, and returns every
matching key that is there from its start to its end.
-/

namespace NetComponents

open Library

namespace Redis

def Cursor.invalid : Cursor := "0"

def Cursor.valid (c : Cursor) : Bool := c != Cursor.invalid

section Client

variable {σ : Type} (redis : Redis σ)

/-- `MATCH` and `COUNT` of a scan; an empty pattern and a limit of 0 are left out. -/
def scanOptions (pattern : String) (limit : ℕ) : List String :=
  (if pattern = "" then [] else ["MATCH", pattern]) ++
    (if 0 < limit then ["COUNT", toString limit] else [])

/-- The next cursor and the elements of a reply to a scan. A reply of another form ends the
iteration; empty elements are skipped. -/
def scanReply (r : Reply) : Cursor × List String :=
  if r.isArray then
    match r.elements with
    | cursor :: keys :: _ =>
      (cursor.str, (keys.elements.map Reply.str).filter fun k => k != "")
    | _ => (Cursor.invalid, [])
  else (Cursor.invalid, [])

/-- `Redis::scan`; it returns the cursor that it leaves behind as well. -/
def scan (cmd : Command) (cursor : Cursor) (pattern : String) (limit : ℕ) :
    Callback σ (Cursor × List String) := fun s =>
  match redis.exec (cmd ++ redis.lib.word cursor :: scanOptions pattern limit) s with
  | (s', .error e) => (s', .error e)
  | (s', .ok r) => (s', .ok (scanReply r))

/-- `Redis::remove` -/
def remove (keys : List String) : Callback σ ℕ := fun s =>
  if keys = [] then (s, .ok 0)
  else
    match redis.exec ("DEL" :: keys) s with
    | (s', .error e) => (s', .error e)
    | (s', .ok r) => (s', .ok (r.getSize 0))

/-- The variables of the loop of `removex`. -/
structure Progress where
  removed : ℕ
  loopGuard : ℕ
  cursor : Cursor

/-- One pass of the loop, and whether there is another one. -/
def removexPass (pattern : String) (batch : ℕ) (p : Progress) : Callback σ (Progress × Bool) :=
  fun s =>
  match redis.scan ["SCAN"] p.cursor pattern batch s with
  | (s', .error e) => (s', .error e)
  | (s', .ok (cursor, keys)) =>
    if 0 < keys.length then
      match redis.remove keys s' with
      | (s'', .error e) => (s'', .error e)
      | (s'', .ok count) =>
        let removed := p.removed + count
        let cursor := if removed ≠ p.removed then Cursor.invalid else cursor
        (s'', .ok (⟨removed, 0, cursor⟩, cursor.valid || removed != p.removed))
    else if 1000 < p.loopGuard + 1 then
      (s', .error (.exception "redis seems to have entered an endless loop"))
    else (s', .ok (⟨p.removed, p.loopGuard + 1, cursor⟩, cursor.valid))

/-- The loop of `removex`, for at most `fuel` passes. -/
def removexLoop (pattern : String) (batch : ℕ) :
    ℕ → Progress → σ → Option (σ × Except Failure ℕ)
  | 0, _, _ => none
  | fuel + 1, p, s =>
    match redis.removexPass pattern batch p s with
    | (s', .error e) => some (s', .error e)
    | (s', .ok (p', true)) => removexLoop pattern batch fuel p' s'
    | (s', .ok (p', false)) => some (s', .ok p'.removed)

/-- `Redis::removex`, if it returns after at most `fuel` passes. -/
def removex (pattern : String) (batch fuel : ℕ) (s : σ) : Option (σ × Except Failure ℕ) :=
  redis.removexLoop pattern batch fuel ⟨0, 0, Cursor.invalid⟩ s

end Client

section Server

/-- The pattern of the options of a scan. -/
def matchOption : List String → Option String
  | "MATCH" :: pattern :: _ => some pattern
  | _ => none

/-- The scan returns the key: without a pattern it returns all keys. -/
def selects (glob : String → String → Bool) (options : List String) (key : String) : Bool :=
  match matchOption options with
  | none => true
  | some pattern => glob pattern key

/-- The pages of the scans from a cursor on until the cursor is 0 again. -/
inductive Iteration {σ : Type} (scan : σ → Cursor → List String → σ × Cursor × List String)
    (options : List String) : σ → Cursor → List (List String) → Prop where
  | last {s s' : σ} {cursor : Cursor} {page : List String}
      (h : scan s cursor options = (s', Cursor.invalid, page)) :
      Iteration scan options s cursor [page]
  | next {s s' : σ} {cursor cursor' : Cursor} {page : List String} {pages : List (List String)}
      (h : scan s cursor options = (s', cursor', page)) (hcursor : cursor' ≠ Cursor.invalid)
      (rest : Iteration scan options s' cursor' pages) :
      Iteration scan options s cursor (page :: pages)

/-- A server whose keys change only by `DEL`, with redis' guarantees for `SCAN`: it returns
keys that exist and match; an iteration from 0 ends, and unless keys are removed meanwhile
it returns all of them, in any order and number of pages, some more than once. -/
structure ScanServer (σ : Type) (glob : String → String → Bool) where
  keys : σ → Finset String
  del : σ → List String → σ
  scan : σ → Cursor → List String → σ × Cursor × List String
  keys_del : ∀ s names, keys (del s names) = keys s \ names.toFinset
  keys_scan : ∀ s cursor options, keys (scan s cursor options).1 = keys s
  page_sound : ∀ s cursor options, ∀ key ∈ (scan s cursor options).2.2,
    key ∈ keys s ∧ selects glob options key = true
  complete : ∀ s options, ∃ pages, Iteration scan options s Cursor.invalid pages ∧
    ∀ key ∈ keys s, selects glob options key = true → ∃ page ∈ pages, key ∈ page

variable {σ : Type} {glob : String → String → Bool} (srv : ScanServer σ glob)

/-- `DEL` returns the number of keys that it removed. -/
def ScanServer.run (s : σ) : Command → σ × Option Reply
  | "DEL" :: names =>
    (srv.del s names, some (.integer (srv.keys s ∩ names.toFinset).card))
  | "SCAN" :: cursor :: options =>
    let (s', cursor', page) := srv.scan s cursor options
    (s', some (.array [.string cursor', .array (page.map .string)]))
  | _ => (s, some (.error "ERR unknown command"))

def ScanServer.client (lib : Redis3m) (retries : ℕ) : Redis σ :=
  ⟨⟨fun s => s, srv.run⟩, retries, lib⟩

theorem selects_scanOptions (pattern : String) (batch : ℕ) (key : String) :
    selects glob (scanOptions pattern batch) key =
      (decide (pattern = "") || glob pattern key) := by
  unfold selects scanOptions
  by_cases hpattern : pattern = ""
  · by_cases hbatch : 0 < batch
    · simp [hpattern, hbatch, matchOption]
    · simp [hpattern, hbatch, matchOption]
  · simp [hpattern, matchOption]

/-- The keys that are to be removed. -/
def ScanServer.matching (pattern : String) (batch : ℕ) (s : σ) : Finset String :=
  (srv.keys s).filter fun key => selects glob (scanOptions pattern batch) key = true

/-- The keys that are to be kept. -/
def ScanServer.others (pattern : String) (batch : ℕ) (s : σ) : Finset String :=
  (srv.keys s).filter fun key => ¬selects glob (scanOptions pattern batch) key = true

end Server

section Removex

variable {σ : Type} {glob : String → String → Bool} (srv : ScanServer σ glob)
variable (lib : Redis3m) (retries : ℕ)
variable (pattern : String) (batch : ℕ)

/-- The keys of a page that the client looks at: it skips an empty name. -/
def names (page : List String) : List String := page.filter fun key => key != ""

/-- A page with an empty name on it, which a key may have, is read without it. -/
theorem scan_names {s s' : σ} {cursor cursor' : Cursor} {page : List String}
    (h : srv.scan s cursor (scanOptions pattern batch) = (s', cursor', page)) :
    (srv.client lib retries).scan ["SCAN"] cursor pattern batch s =
      (s', .ok (cursor', names page)) := by
  have hrun : (srv.client lib retries).pool.run s ("SCAN" :: cursor :: scanOptions pattern batch) =
      (s', some (.array [.string cursor', .array (page.map .string)])) := by
    simp [ScanServer.client, ScanServer.run, h]
  have hstr : (page.map Reply.string).map Reply.str = page := by
    rw [List.map_map]
    exact List.map_id page
  have hreply : scanReply (.array [.string cursor', .array (page.map .string)]) =
      (cursor', names page) := by
    unfold scanReply
    simp only [Reply.isArray, Reply.elements, Reply.str, if_true, hstr]
    rfl
  have hexec := exec_answered (srv.client lib retries) hrun rfl
  unfold scan
  rw [Redis3m.word_eq, show ["SCAN"] ++ cursor :: scanOptions pattern batch =
    "SCAN" :: cursor :: scanOptions pattern batch from rfl, hexec]
  simp only [hreply]

theorem remove_eq (s : σ) {names : List String} (hnames : names ≠ []) :
    (srv.client lib retries).remove names s =
      (srv.del s names, .ok (srv.keys s ∩ names.toFinset).card) := by
  have hrun : (srv.client lib retries).pool.run s ("DEL" :: names) =
      (srv.del s names, some (.integer (srv.keys s ∩ names.toFinset).card)) := rfl
  have hexec := exec_answered (srv.client lib retries) hrun rfl
  unfold remove
  rw [if_neg hnames, hexec]
  simp [Reply.getSize, Reply.toSize]

/-- What a page tells: its keys are to be removed, and the scan has changed nothing. -/
theorem page_subset {s s' : σ} {cursor cursor' : Cursor} {page : List String}
    (h : srv.scan s cursor (scanOptions pattern batch) = (s', cursor', page)) :
    page.toFinset ⊆ srv.matching pattern batch s := by
  intro key hkey
  have hsound := srv.page_sound s cursor (scanOptions pattern batch) key
    (by simpa [h] using hkey)
  exact Finset.mem_filter.mpr hsound

theorem keys_scanned {s s' : σ} {cursor cursor' : Cursor} {page : List String}
    (h : srv.scan s cursor (scanOptions pattern batch) = (s', cursor', page)) :
    srv.keys s' = srv.keys s := by
  have hkeys := srv.keys_scan s cursor (scanOptions pattern batch)
  rwa [h] at hkeys

theorem matching_del (s : σ) (page : List String) :
    srv.matching pattern batch (srv.del s page) = srv.matching pattern batch s \ page.toFinset := by
  ext key
  simp only [ScanServer.matching, srv.keys_del, Finset.mem_filter, Finset.mem_sdiff]
  tauto

theorem others_del (s : σ) {page : List String}
    (hpage : page.toFinset ⊆ srv.matching pattern batch s) :
    srv.others pattern batch (srv.del s page) = srv.others pattern batch s := by
  ext key
  simp only [ScanServer.others, srv.keys_del, Finset.mem_filter, Finset.mem_sdiff]
  constructor
  · rintro ⟨⟨hkey, -⟩, hother⟩
    exact ⟨hkey, hother⟩
  · rintro ⟨hkey, hother⟩
    refine ⟨⟨hkey, ?_⟩, hother⟩
    intro hmem
    exact hother (Finset.mem_filter.mp (hpage hmem)).2

theorem names_subset {s s' : σ} {cursor cursor' : Cursor} {page : List String}
    (h : srv.scan s cursor (scanOptions pattern batch) = (s', cursor', page)) :
    (names page).toFinset ⊆ srv.matching pattern batch s := by
  intro key hkey
  apply page_subset srv pattern batch h
  rw [List.mem_toFinset] at hkey ⊢
  exact (List.mem_filter.mp hkey).1

/-- Without a key that has an empty name, nothing is skipped. -/
theorem names_eq {s s' : σ} {cursor cursor' : Cursor} {page : List String}
    (h : srv.scan s cursor (scanOptions pattern batch) = (s', cursor', page))
    (hnames : "" ∉ srv.keys s) : names page = page := by
  apply List.filter_eq_self.mpr
  intro key hkey
  have hmem : key ∈ srv.matching pattern batch s :=
    page_subset srv pattern batch h (List.mem_toFinset.mpr hkey)
  have hne : key ≠ "" := by
    rintro rfl
    exact hnames (Finset.mem_filter.mp hmem).1
  simpa using hne

/-- A page with keys: they are removed, and the iteration starts over. -/
theorem pass_hit {s s' : σ} {p : Progress} {cursor' : Cursor} {page : List String}
    (h : srv.scan s p.cursor (scanOptions pattern batch) = (s', cursor', page))
    (hpage : names page ≠ []) :
    (srv.client lib retries).removexPass pattern batch p s =
      (srv.del s' (names page),
        .ok (⟨p.removed + (names page).toFinset.card, 0, Cursor.invalid⟩, true)) := by
  have hsub : (names page).toFinset ⊆ srv.keys s :=
    (names_subset srv pattern batch h).trans (Finset.filter_subset _ _)
  have hcount : srv.keys s' ∩ (names page).toFinset = (names page).toFinset := by
    rw [keys_scanned srv pattern batch h]
    exact Finset.inter_eq_right.mpr hsub
  have hpos : (names page).toFinset.card ≠ 0 := by simpa using hpage
  unfold removexPass
  rw [scan_names srv lib retries pattern batch h]
  simp only [List.length_pos_iff.mpr hpage, if_true]
  rw [remove_eq srv lib retries s' hpage, hcount]
  simp [hpos]

/-- A page without keys. -/
theorem pass_miss {s s' : σ} {p : Progress} {cursor' : Cursor} {page : List String}
    (h : srv.scan s p.cursor (scanOptions pattern batch) = (s', cursor', page))
    (hpage : names page = []) (hguard : p.loopGuard < 1000) :
    (srv.client lib retries).removexPass pattern batch p s =
      (s', .ok (⟨p.removed, p.loopGuard + 1, cursor'⟩, cursor'.valid)) := by
  unfold removexPass
  rw [scan_names srv lib retries pattern batch h, hpage]
  simp only [List.length_nil, lt_irrefl, if_false]
  rw [if_neg (by omega)]

/-- What a run of the loop does that starts with these keys to be removed. -/
structure Removes (s s' : σ) : Prop where
  matching : srv.matching pattern batch s' = ∅
  others : srv.others pattern batch s' = srv.others pattern batch s

theorem matching_scanned {s s' : σ} (hkeys : srv.keys s' = srv.keys s) :
    srv.matching pattern batch s' = srv.matching pattern batch s := by
  rw [ScanServer.matching, ScanServer.matching, hkeys]

theorem others_scanned {s s' : σ} (hkeys : srv.keys s' = srv.keys s) :
    srv.others pattern batch s' = srv.others pattern batch s := by
  rw [ScanServer.others, ScanServer.others, hkeys]

/-- The loop, from the middle of an iteration whose remaining pages contain all of the `m`
keys to be removed: it ends after the remaining pages and 1000 passes for each key. -/
def LoopRemoves (m : ℕ) : Prop :=
  ∀ s cursor pages, Iteration srv.scan (scanOptions pattern batch) s cursor pages →
    (srv.matching pattern batch s).card = m → "" ∉ srv.keys s →
    (∀ key ∈ srv.matching pattern batch s, ∃ page ∈ pages, key ∈ page) →
    ∀ removed loopGuard, loopGuard + pages.length ≤ 1000 →
    ∃ s', Removes srv pattern batch s s' ∧ ∀ fuel, pages.length + 1000 * m ≤ fuel →
      (srv.client lib retries).removexLoop pattern batch fuel ⟨removed, loopGuard, cursor⟩ s =
        some (s', .ok (removed + m))

variable (hbound : ∀ s pages,
  Iteration srv.scan (scanOptions pattern batch) s Cursor.invalid pages → pages.length ≤ 1000)

include hbound in
/-- After a page with keys fewer keys remain, and a new iteration has at most 1000 pages. -/
theorem loop_hit {m : ℕ} (ih : ∀ k < m, LoopRemoves srv lib retries pattern batch k) {s s' : σ}
    {cursor cursor' : Cursor} {page : List String}
    (h : srv.scan s cursor (scanOptions pattern batch) = (s', cursor', page))
    (hpage : page ≠ []) (hm : (srv.matching pattern batch s).card = m)
    (hnames : "" ∉ srv.keys s) (removed loopGuard : ℕ) :
    ∃ t, Removes srv pattern batch s t ∧ ∀ fuel, 1 + 1000 * m ≤ fuel →
      (srv.client lib retries).removexLoop pattern batch fuel ⟨removed, loopGuard, cursor⟩ s =
        some (t, .ok (removed + m)) := by
  have hkeys := keys_scanned srv pattern batch h
  have hsub := page_subset srv pattern batch h
  have hle : page.toFinset.card ≤ m := hm ▸ Finset.card_le_card hsub
  have hpos : 0 < page.toFinset.card := by
    rw [Finset.card_pos, List.toFinset_nonempty_iff]
    exact hpage
  have hmatching : srv.matching pattern batch (srv.del s' page) =
      srv.matching pattern batch s \ page.toFinset := by
    rw [matching_del, matching_scanned srv pattern batch hkeys]
  have hcard : (srv.matching pattern batch (srv.del s' page)).card =
      m - page.toFinset.card := by
    rw [hmatching, Finset.card_sdiff_of_subset hsub, hm]
  have hnames' : "" ∉ srv.keys (srv.del s' page) := by
    rw [srv.keys_del, hkeys]
    intro hmem
    exact hnames (Finset.mem_sdiff.mp hmem).1
  obtain ⟨pages, hpages, hcover⟩ := srv.complete (srv.del s' page) (scanOptions pattern batch)
  have hlength := hbound _ pages hpages
  obtain ⟨t, ht, hloop⟩ := ih (m - page.toFinset.card) (by omega) _ _ pages hpages hcard hnames'
    (fun key hkey => hcover key (Finset.mem_filter.mp hkey).1 (Finset.mem_filter.mp hkey).2)
    (removed + page.toFinset.card) 0 (by omega)
  refine ⟨t, ⟨ht.matching, ?_⟩, ?_⟩
  · have hsub' : page.toFinset ⊆ srv.matching pattern batch s' := by
      rwa [matching_scanned srv pattern batch hkeys]
    rw [ht.others, others_del srv pattern batch s' hsub',
      others_scanned srv pattern batch hkeys]
  · intro fuel hfuel
    obtain ⟨fuel, rfl⟩ : ∃ n, fuel = n + 1 := ⟨fuel - 1, by omega⟩
    have hkept := names_eq srv pattern batch h hnames
    rw [removexLoop, pass_hit srv lib retries pattern batch h (hkept.symm ▸ hpage), hkept]
    simp only
    rw [hloop fuel (by omega)]
    congr 3
    omega

/-- The last page of an iteration, without keys: the loop is over. -/
theorem loop_last {s s' : σ} {cursor : Cursor}
    (h : srv.scan s cursor (scanOptions pattern batch) = (s', Cursor.invalid, []))
    (fuel removed : ℕ) {loopGuard : ℕ} (hguard : loopGuard < 1000) :
    (srv.client lib retries).removexLoop pattern batch (fuel + 1) ⟨removed, loopGuard, cursor⟩ s =
      some (s', .ok removed) := by
  have hpass := pass_miss (p := ⟨removed, loopGuard, cursor⟩) srv lib retries pattern batch h rfl
    hguard
  rw [removexLoop, hpass]
  rfl

theorem loop_next {s s' : σ} {cursor cursor' : Cursor}
    (h : srv.scan s cursor (scanOptions pattern batch) = (s', cursor', []))
    (hcursor : cursor' ≠ Cursor.invalid) (fuel removed : ℕ)
    {loopGuard : ℕ} (hguard : loopGuard < 1000) :
    (srv.client lib retries).removexLoop pattern batch (fuel + 1) ⟨removed, loopGuard, cursor⟩ s =
      (srv.client lib retries).removexLoop pattern batch fuel
        ⟨removed, loopGuard + 1, cursor'⟩ s' := by
  have hpass := pass_miss (p := ⟨removed, loopGuard, cursor⟩) srv lib retries pattern batch h rfl
    hguard
  have hvalid : cursor'.valid = true := by simpa [Cursor.valid] using hcursor
  rw [removexLoop, hpass, hvalid]

include hbound in
theorem loop_removes (m : ℕ) : LoopRemoves srv lib retries pattern batch m := by
  induction m using Nat.strong_induction_on with
  | h m ih =>
    intro s cursor pages hpages
    induction hpages with
    | @last s s' cursor page h =>
      intro hm hnames hcover removed loopGuard hguard
      rw [List.length_singleton] at hguard
      by_cases hpage : page = []
      · subst hpage
        have hkeys := keys_scanned srv pattern batch h
        have hnone : srv.matching pattern batch s = ∅ := by
          apply Finset.eq_empty_of_forall_notMem
          intro key hkey
          obtain ⟨page, hpage, hmem⟩ := hcover key hkey
          rw [List.mem_singleton.mp hpage] at hmem
          cases hmem
        obtain rfl : m = 0 := by simpa [hnone] using hm.symm
        refine ⟨s', ⟨?_, others_scanned srv pattern batch hkeys⟩, ?_⟩
        · rw [matching_scanned srv pattern batch hkeys, hnone]
        · intro fuel hfuel
          rw [List.length_singleton] at hfuel
          obtain ⟨fuel, rfl⟩ : ∃ n, fuel = n + 1 := ⟨fuel - 1, by omega⟩
          exact loop_last srv lib retries pattern batch h fuel removed (by omega)
      · exact loop_hit srv lib retries pattern batch hbound ih h hpage hm hnames removed loopGuard
    | @next s s' cursor cursor' page pages h hcursor rest ihrest =>
      intro hm hnames hcover removed loopGuard hguard
      rw [List.length_cons] at hguard
      by_cases hpage : page = []
      · subst hpage
        have hkeys := keys_scanned srv pattern batch h
        have hmatching := matching_scanned srv pattern batch hkeys
        have hcover' : ∀ key ∈ srv.matching pattern batch s', ∃ page ∈ pages, key ∈ page := by
          intro key hkey
          rw [hmatching] at hkey
          obtain ⟨page, hpage, hmem⟩ := hcover key hkey
          rcases List.mem_cons.mp hpage with rfl | hlater
          · cases hmem
          · exact ⟨page, hlater, hmem⟩
        obtain ⟨t, ht, hloop⟩ := ihrest (by rw [hmatching, hm]) (by rwa [hkeys]) hcover' removed
          (loopGuard + 1) (by omega)
        refine ⟨t, ⟨ht.matching, ?_⟩, ?_⟩
        · rw [ht.others, others_scanned srv pattern batch hkeys]
        · intro fuel hfuel
          rw [List.length_cons] at hfuel
          obtain ⟨fuel, rfl⟩ : ∃ n, fuel = n + 1 := ⟨fuel - 1, by omega⟩
          rw [loop_next srv lib retries pattern batch h hcursor fuel removed (by omega)]
          exact hloop fuel (by omega)
      · obtain ⟨t, ht, hloop⟩ := loop_hit srv lib retries pattern batch hbound ih h hpage hm hnames
          removed loopGuard
        refine ⟨t, ht, ?_⟩
        intro fuel hfuel
        rw [List.length_cons] at hfuel
        exact hloop fuel (by omega)

include hbound in
/-- Where every iteration takes at most 1000 pages, `removex` returns after finitely many
passes: no matching key is left, all other keys are, and the result is the number of
the keys that are gone. -/
theorem removex_removes (s : σ) (hnames : "" ∉ srv.keys s) :
    ∃ s' n, (∀ fuel, 1000 * (n + 1) ≤ fuel →
        (srv.client lib retries).removex pattern batch fuel s = some (s', .ok n)) ∧
      srv.keys s' = (srv.keys s).filter (fun key => ¬(pattern = "" ∨ glob pattern key = true)) ∧
      n = (srv.keys s \ srv.keys s').card := by
  obtain ⟨pages, hpages, hcover⟩ := srv.complete s (scanOptions pattern batch)
  have hlength := hbound s pages hpages
  obtain ⟨s', hs', hloop⟩ := loop_removes srv lib retries pattern batch hbound
    (srv.matching pattern batch s).card s Cursor.invalid pages hpages rfl hnames
    (fun key hkey => hcover key (Finset.mem_filter.mp hkey).1 (Finset.mem_filter.mp hkey).2)
    0 0 (by omega)
  have hkept : srv.keys s' = srv.others pattern batch s := by
    rw [← hs'.others]
    have hall := Finset.filter_union_filter_not_eq
      (fun key => selects glob (scanOptions pattern batch) key = true) (srv.keys s')
    have hnone : (srv.keys s').filter
        (fun key => selects glob (scanOptions pattern batch) key = true) = ∅ := hs'.matching
    rw [hnone, Finset.empty_union] at hall
    exact hall.symm
  refine ⟨s', (srv.matching pattern batch s).card, ?_, ?_, ?_⟩
  · intro fuel hfuel
    have hrun := hloop fuel (by omega)
    rwa [Nat.zero_add] at hrun
  · rw [hkept, ScanServer.others]
    simp [selects_scanOptions]
  · rw [hkept, ScanServer.others, ScanServer.matching]
    congr 1
    ext key
    simp only [Finset.mem_filter, Finset.mem_sdiff]
    tauto

/-- A server that returns all keys in one page, and a `glob` of literal patterns. -/
def onePage : ScanServer (List String) (fun pattern key => pattern == key) where
  keys s := s.toFinset
  del s names := s.filter fun key => key ∉ names
  scan s _ options := (s, Cursor.invalid,
    s.filter fun key => selects (fun pattern key => pattern == key) options key)
  keys_del s names := by
    ext key
    simp
  keys_scan s cursor options := rfl
  page_sound s cursor options key hkey := by
    simpa using hkey
  complete s options := by
    refine ⟨_, .last rfl, ?_⟩
    intro key hkey hselects
    refine ⟨_, List.mem_singleton_self _, ?_⟩
    rw [List.mem_filter]
    exact ⟨List.mem_toFinset.mp hkey, hselects⟩

theorem removex_removes_one_key :
    ∃ s' n, (∀ fuel, 1000 * (n + 1) ≤ fuel →
        (onePage.client .looping 50).removex "a" 100 fuel ["a", "b"] = some (s', .ok n)) ∧
      onePage.keys s' = (onePage.keys ["a", "b"]).filter
        (fun key => ¬("a" = "" ∨ ("a" == key) = true)) ∧
      n = (onePage.keys ["a", "b"] \ onePage.keys s').card :=
  removex_removes onePage .looping 50 "a" 100
    (by
      intro s pages hpages
      cases hpages with
      | last h => simp
      | next h hcursor rest =>
        cases h
        exact absurd rfl hcursor)
    ["a", "b"] (by decide)

end Removex

end Redis

end NetComponents
