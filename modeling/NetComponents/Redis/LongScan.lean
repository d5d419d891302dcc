import NetComponents.Library.Inet
import NetComponents.Redis.Removex

/-!
# Long scans

`removex` counts the pages without a key that follow each other, and gives up at more
than 1000 of them. A scan that goes on may return as many empty pages as it likes, so
the error says nothing about whether it would have ended. The scans of `removex` start
over after each removal; whether it gives up depends only on the first 1001 pages from
each such start.
-/

namespace NetComponents

open Library

namespace Redis

section LongScan

variable {σ : Type} {glob : String → String → Bool} (srv : ScanServer σ glob)
variable (lib : Redis3m) (retries : ℕ)
variable (pattern : String) (batch : ℕ)

/-- What `removex` throws when it gives up. -/
def endlessLoop : Failure := .exception "redis seems to have entered an endless loop"

/-- The server and the cursor after `n` more scans, wherever the cursor stands. -/
def seek (n : ℕ) (s : σ) (cursor : Cursor) : σ × Cursor :=
  match n with
  | 0 => (s, cursor)
  | n + 1 =>
    let r := srv.scan s cursor (scanOptions pattern batch)
    seek n r.1 r.2.1

/-- What the scan returns for page `n` of the iteration that starts in `s`. -/
def pageAt (n : ℕ) (s : σ) : σ × Cursor × List String :=
  let r := seek srv pattern batch n s Cursor.invalid
  srv.scan r.1 r.2 (scanOptions pattern batch)

/-- Page `n` has no key, and the iteration goes on behind it. -/
def Blank (n : ℕ) (s : σ) : Prop :=
  names (pageAt srv pattern batch n s).2.2 = [] ∧
    (pageAt srv pattern batch n s).2.1 ≠ Cursor.invalid

/-- The iteration that starts in `s` goes on for 1001 pages, and there is no key on any of
them. -/
def Long (s : σ) : Prop :=
  (∀ n < 1000, Blank srv pattern batch n s) ∧ names (pageAt srv pattern batch 1000 s).2.2 = []

/-- The first page with keys of the iteration that starts in `s`, and the server after their
removal. -/
def Restart (s t : σ) : Prop :=
  ∃ n, (∀ i < n, Blank srv pattern batch i s) ∧
    names (pageAt srv pattern batch n s).2.2 ≠ [] ∧
    t = srv.del (pageAt srv pattern batch n s).1 (names (pageAt srv pattern batch n s).2.2)

theorem seek_succ (n : ℕ) (s : σ) (cursor : Cursor) :
    seek srv pattern batch (n + 1) s cursor =
      ((srv.scan (seek srv pattern batch n s cursor).1 (seek srv pattern batch n s cursor).2
          (scanOptions pattern batch)).1,
        (srv.scan (seek srv pattern batch n s cursor).1 (seek srv pattern batch n s cursor).2
          (scanOptions pattern batch)).2.1) := by
  induction n generalizing s cursor with
  | zero => rfl
  | succ n ih =>
    rw [seek]
    exact ih _ _

theorem keys_seek (n : ℕ) (s : σ) (cursor : Cursor) :
    srv.keys (seek srv pattern batch n s cursor).1 = srv.keys s := by
  induction n generalizing s cursor with
  | zero => rfl
  | succ n ih =>
    rw [seek, ih]
    exact srv.keys_scan s cursor _

theorem keys_pageAt (n : ℕ) (s : σ) : srv.keys (pageAt srv pattern batch n s).1 = srv.keys s := by
  unfold pageAt
  rw [srv.keys_scan, keys_seek]

/-- An iteration does not go on forever. -/
theorem seek_ends {s : σ} {cursor : Cursor} {pages : List (List String)}
    (h : Iteration srv.scan (scanOptions pattern batch) s cursor pages) :
    ∃ n, (seek srv pattern batch (n + 1) s cursor).2 = Cursor.invalid := by
  induction h with
  | @last s s' cursor page h =>
    use 0
    simp [seek, h]
  | @next s s' cursor cursor' page pages h hcursor rest ih =>
    obtain ⟨n, hn⟩ := ih
    use n + 1
    rw [seek]
    simpa [h] using hn

/-- Every iteration comes to a page with a key or to its last page. -/
theorem exists_not_blank (s : σ) : ∃ n, ¬Blank srv pattern batch n s := by
  obtain ⟨pages, hpages, -⟩ := srv.complete s (scanOptions pattern batch)
  obtain ⟨n, hn⟩ := seek_ends srv pattern batch hpages
  use n
  intro hblank
  apply hblank.2
  rw [seek_succ] at hn
  exact hn

theorem scan_seek (n : ℕ) (s : σ) :
    srv.scan (seek srv pattern batch n s Cursor.invalid).1
        (seek srv pattern batch n s Cursor.invalid).2 (scanOptions pattern batch) =
      ((pageAt srv pattern batch n s).1, (pageAt srv pattern batch n s).2.1,
        (pageAt srv pattern batch n s).2.2) := rfl

/-- One page too many without keys. -/
theorem pass_endless {s s' : σ} {p : Progress} {cursor' : Cursor} {page : List String}
    (h : srv.scan s p.cursor (scanOptions pattern batch) = (s', cursor', page))
    (hpage : names page = []) (hguard : 1000 ≤ p.loopGuard) :
    (srv.client lib retries).removexPass pattern batch p s = (s', .error endlessLoop) := by
  unfold removexPass
  rw [scan_names srv lib retries pattern batch h, hpage]
  simp only [List.length_nil, lt_irrefl, if_false]
  rw [if_pos (by omega)]
  rfl

/-- The loop passes over blank pages and counts them. -/
theorem loop_blank {s : σ} (removed : ℕ) {n : ℕ} (hn : n ≤ 1000)
    (hblank : ∀ i < n, Blank srv pattern batch i s) (fuel : ℕ) :
    (srv.client lib retries).removexLoop pattern batch (fuel + n) ⟨removed, 0, Cursor.invalid⟩ s =
      (srv.client lib retries).removexLoop pattern batch fuel
        ⟨removed, n, (seek srv pattern batch n s Cursor.invalid).2⟩
        (seek srv pattern batch n s Cursor.invalid).1 := by
  induction n generalizing fuel with
  | zero => rfl
  | succ n ih =>
    obtain ⟨hpage, hcursor⟩ := hblank n (by omega)
    have hpass := pass_miss (p := ⟨removed, n, (seek srv pattern batch n s Cursor.invalid).2⟩)
      srv lib retries pattern batch (scan_seek srv pattern batch n s) hpage (by simp only; omega)
    have hvalid : (pageAt srv pattern batch n s).2.1.valid = true := by
      simpa [Cursor.valid] using hcursor
    rw [show fuel + (n + 1) = fuel + 1 + n by omega,
      ih (by omega) (fun i hi => hblank i (by omega)) (fuel + 1), removexLoop, hpass, hvalid,
      seek_succ]
    rfl

/-- At a page with keys the loop removes them and starts over. -/
theorem loop_restart {s t : σ} (removed : ℕ) {n : ℕ} (hn : n ≤ 1000)
    (hblank : ∀ i < n, Blank srv pattern batch i s)
    (hpage : names (pageAt srv pattern batch n s).2.2 ≠ [])
    (ht : t = srv.del (pageAt srv pattern batch n s).1
      (names (pageAt srv pattern batch n s).2.2)) (fuel : ℕ) :
    (srv.client lib retries).removexLoop pattern batch (fuel + 1 + n)
        ⟨removed, 0, Cursor.invalid⟩ s =
      (srv.client lib retries).removexLoop pattern batch fuel
        ⟨removed + (names (pageAt srv pattern batch n s).2.2).toFinset.card, 0, Cursor.invalid⟩
        t := by
  have hpass := pass_hit (p := ⟨removed, n, (seek srv pattern batch n s Cursor.invalid).2⟩)
    srv lib retries pattern batch (scan_seek srv pattern batch n s) hpage
  rw [loop_blank srv lib retries pattern batch removed hn hblank, removexLoop, hpass, ht]

/-- At a last page without keys the loop is over. -/
theorem loop_over {s : σ} (removed : ℕ) {n : ℕ} (hn : n < 1000)
    (hblank : ∀ i < n, Blank srv pattern batch i s)
    (hpage : names (pageAt srv pattern batch n s).2.2 = [])
    (hcursor : (pageAt srv pattern batch n s).2.1 = Cursor.invalid) (fuel : ℕ) :
    (srv.client lib retries).removexLoop pattern batch (fuel + 1 + n)
        ⟨removed, 0, Cursor.invalid⟩ s =
      some ((pageAt srv pattern batch n s).1, .ok removed) := by
  have hpass := pass_miss (p := ⟨removed, n, (seek srv pattern batch n s Cursor.invalid).2⟩)
    srv lib retries pattern batch (scan_seek srv pattern batch n s) hpage hn
  rw [loop_blank srv lib retries pattern batch removed hn.le hblank, removexLoop, hpass, hcursor]
  rfl

/-- At one more page without keys after 1000 the loop gives up. -/
theorem loop_gives_up {s : σ} (removed : ℕ) {n : ℕ} (hn : n = 1000)
    (hblank : ∀ i < n, Blank srv pattern batch i s)
    (hpage : names (pageAt srv pattern batch n s).2.2 = []) (fuel : ℕ) :
    (srv.client lib retries).removexLoop pattern batch (fuel + 1 + n)
        ⟨removed, 0, Cursor.invalid⟩ s =
      some ((pageAt srv pattern batch n s).1, .error endlessLoop) := by
  have hpass := pass_endless (p := ⟨removed, n, (seek srv pattern batch n s Cursor.invalid).2⟩)
    srv lib retries pattern batch (scan_seek srv pattern batch n s) hpage hn.ge
  rw [loop_blank srv lib retries pattern batch removed hn.le hblank, removexLoop, hpass]

/-- How the iteration that starts in `s` ends for the loop: it is too long, it comes to its
last page without a key, or it comes to a page with keys. -/
theorem iteration_cases (s : σ) :
    Long srv pattern batch s ∨ ¬Long srv pattern batch s ∧ ∃ n,
      (∀ i < n, Blank srv pattern batch i s) ∧
        (n < 1000 ∧ names (pageAt srv pattern batch n s).2.2 = [] ∧
            (pageAt srv pattern batch n s).2.1 = Cursor.invalid ∨
          n ≤ 1000 ∧ names (pageAt srv pattern batch n s).2.2 ≠ []) := by
  classical
  by_cases hlong : Long srv pattern batch s
  · exact .inl hlong
  · right
    refine ⟨hlong, ?_⟩
    have hexists := exists_not_blank srv pattern batch s
    have hblank : ∀ i < Nat.find hexists, Blank srv pattern batch i s := fun i hi =>
      not_not.mp (Nat.find_min hexists hi)
    have hstops := Nat.find_spec hexists
    refine ⟨Nat.find hexists, hblank, ?_⟩
    generalize Nat.find hexists = n at hblank hstops
    have hle : n ≤ 1000 := by
      by_contra hlt
      exact hlong ⟨fun i hi => hblank i (by omega), (hblank 1000 (by omega)).1⟩
    by_cases hpage : names (pageAt srv pattern batch n s).2.2 = []
    · left
      refine ⟨?_, hpage, ?_⟩
      · apply lt_of_le_of_ne hle
        rintro rfl
        exact hlong ⟨hblank, hpage⟩
      · by_contra hcursor
        exact hstops ⟨hpage, hcursor⟩
    · exact .inr ⟨hle, hpage⟩

/-- There is one first page that is not blank. -/
theorem not_blank_unique {s : σ} {m n : ℕ} (hm : ∀ i < m, Blank srv pattern batch i s)
    (hm' : ¬Blank srv pattern batch m s) (hn : ∀ i < n, Blank srv pattern batch i s)
    (hn' : ¬Blank srv pattern batch n s) : m = n := by
  rcases lt_trichotomy m n with hlt | heq | hlt
  · exact absurd (hn m hlt) hm'
  · exact heq
  · exact absurd (hm n hlt) hn'

/-- Only one state can follow on `s` as the start of an iteration. -/
theorem restart_eq {s t : σ} {n : ℕ} (hblank : ∀ i < n, Blank srv pattern batch i s)
    (hpage : names (pageAt srv pattern batch n s).2.2 ≠ [])
    (h : Restart srv pattern batch s t) :
    t = srv.del (pageAt srv pattern batch n s).1
      (names (pageAt srv pattern batch n s).2.2) := by
  obtain ⟨m, hblank', hpage', rfl⟩ := h
  obtain rfl := not_blank_unique srv pattern batch hblank' (fun hb => hpage' hb.1) hblank
    (fun hb => hpage hb.1)
  rfl

theorem not_restart {s t : σ} {n : ℕ} (hblank : ∀ i < n, Blank srv pattern batch i s)
    (hpage : names (pageAt srv pattern batch n s).2.2 = [])
    (hcursor : (pageAt srv pattern batch n s).2.1 = Cursor.invalid) :
    ¬Restart srv pattern batch s t := by
  rintro ⟨m, hblank', hpage', -⟩
  obtain rfl := not_blank_unique srv pattern batch hblank' (fun hb => hpage' hb.1) hblank
    (fun hb => hb.2 hcursor)
  exact hpage' hpage

/-- Fewer matching keys are left after a restart. -/
theorem card_restart_lt {s t : σ} (h : Restart srv pattern batch s t) :
    (srv.matching pattern batch t).card < (srv.matching pattern batch s).card := by
  obtain ⟨n, -, hpage, rfl⟩ := h
  have hkeys : srv.keys (seek srv pattern batch n s Cursor.invalid).1 = srv.keys s :=
    keys_seek srv pattern batch n s _
  have hsub := names_subset srv pattern batch (scan_seek srv pattern batch n s)
  rw [matching_scanned srv pattern batch hkeys] at hsub
  rw [matching_del, matching_scanned srv pattern batch (keys_pageAt srv pattern batch n s)]
  apply Finset.card_lt_card
  apply Finset.sdiff_ssubset hsub
  rwa [List.toFinset_nonempty_iff]

/-- The loop at the start of an iteration ends, and it gives up exactly if one of the
iterations that it starts from then on is too long. -/
theorem loop_gives_up_iff (m : ℕ) :
    ∀ s, (srv.matching pattern batch s).card = m → ∀ removed, ∃ N s' r,
      (∀ fuel, N ≤ fuel → (srv.client lib retries).removexLoop pattern batch fuel
        ⟨removed, 0, Cursor.invalid⟩ s = some (s', r)) ∧
      (r = .error endlessLoop ↔
        ∃ t, Relation.ReflTransGen (Restart srv pattern batch) s t ∧
          Long srv pattern batch t) := by
  induction m using Nat.strong_induction_on with
  | h m ih =>
    intro s hm removed
    rcases iteration_cases srv pattern batch s with
      hlong | ⟨hshort, n, hblank, ⟨hn, hpage, hcursor⟩ | ⟨hn, hpage⟩⟩
    · refine ⟨1001, (pageAt srv pattern batch 1000 s).1, .error endlessLoop, ?_,
        iff_of_true rfl ⟨s, .refl, hlong⟩⟩
      intro fuel hfuel
      obtain ⟨fuel, rfl⟩ : ∃ k, fuel = k + 1 + 1000 := ⟨fuel - 1001, by omega⟩
      exact loop_gives_up srv lib retries pattern batch removed rfl hlong.1 hlong.2 fuel
    · refine ⟨n + 1, (pageAt srv pattern batch n s).1, .ok removed, ?_, ?_⟩
      · intro fuel hfuel
        obtain ⟨fuel, rfl⟩ : ∃ k, fuel = k + 1 + n := ⟨fuel - (n + 1), by omega⟩
        exact loop_over srv lib retries pattern batch removed hn hblank hpage hcursor fuel
      · refine iff_of_false nofun ?_
        rintro ⟨t, hreach, hlong⟩
        rcases hreach.cases_head with rfl | ⟨u, hrestart, -⟩
        · exact hshort hlong
        · exact not_restart srv pattern batch hblank hpage hcursor hrestart
    · set t := srv.del (pageAt srv pattern batch n s).1
        (names (pageAt srv pattern batch n s).2.2) with ht
      have hrestart : Restart srv pattern batch s t := ⟨n, hblank, hpage, ht⟩
      have hfewer := card_restart_lt srv pattern batch hrestart
      obtain ⟨removed', hloop⟩ : ∃ removed', ∀ fuel,
          (srv.client lib retries).removexLoop pattern batch (fuel + 1 + n)
            ⟨removed, 0, Cursor.invalid⟩ s =
          (srv.client lib retries).removexLoop pattern batch fuel ⟨removed', 0, Cursor.invalid⟩ t :=
        ⟨_, loop_restart srv lib retries pattern batch removed hn hblank hpage ht⟩
      obtain ⟨N, s', r, hrun, hiff⟩ := ih _ (hm ▸ hfewer) t rfl removed'
      refine ⟨N + 1 + n, s', r, ?_, hiff.trans ?_⟩
      · intro fuel hfuel
        obtain ⟨fuel, rfl⟩ : ∃ k, fuel = k + 1 + n := ⟨fuel - (n + 1), by omega⟩
        rw [hloop fuel]
        exact hrun fuel (by omega)
      · constructor
        · rintro ⟨u, hreach, hlong⟩
          exact ⟨u, hreach.head hrestart, hlong⟩
        · rintro ⟨u, hreach, hlong⟩
          rcases hreach.cases_head with rfl | ⟨v, hfirst, hrest⟩
          · exact absurd hlong hshort
          · rw [restart_eq srv pattern batch hblank hpage hfirst, ← ht] at hrest
            exact ⟨u, hrest, hlong⟩

/-- `removex` always returns or throws, and it gives up on a scan that would have ended exactly
if one of the iterations that it starts, the first one or one after a removal, begins with
1001 pages without a key. -/
theorem removex_gives_up_iff (s : σ) :
    ∃ N s' r, (∀ fuel, N ≤ fuel →
        (srv.client lib retries).removex pattern batch fuel s = some (s', r)) ∧
      (r ≠ .error endlessLoop ↔
        ∀ t, Relation.ReflTransGen (Restart srv pattern batch) s t →
          ¬Long srv pattern batch t) := by
  obtain ⟨N, s', r, hrun, hiff⟩ := loop_gives_up_iff srv lib retries pattern batch _ s rfl 0
  refine ⟨N, s', r, hrun, ?_⟩
  rw [ne_eq, hiff]
  push Not
  rfl

end LongScan

section Example

/-- A server that returns its keys on one page, behind as many empty pages as are asked for.
It keeps the number of pages that it has returned. -/
def pagedScan (pages : ℕ) (s : List String × ℕ) (cursor : Cursor) (options : List String) :
    (List String × ℕ) × Cursor × List String :=
  let n := if cursor = Cursor.invalid then 0 else s.2
  if n < pages then ((s.1, n + 1), toString (n + 1), [])
  else ((s.1, n), Cursor.invalid,
    s.1.filter fun key => selects (fun pattern key => pattern == key) options key)

theorem toString_succ_ne (n : ℕ) : toString (n + 1) ≠ Cursor.invalid := by
  intro h
  have hzero : n + 1 = 0 := toString_nat_injective h
  omega

theorem pagedScan_blank {pages n : ℕ} {keys : List String} {cursor : Cursor} {m : ℕ}
    (hn : (if cursor = Cursor.invalid then 0 else m) = n) (hlt : n < pages)
    (options : List String) :
    pagedScan pages (keys, m) cursor options = ((keys, n + 1), toString (n + 1), []) := by
  simp [pagedScan, hn, hlt]

theorem pagedScan_iteration (pages : ℕ) (keys : List String) (options : List String) {k : ℕ} :
    ∀ {n m : ℕ} {cursor : Cursor}, n + k = pages →
      (if cursor = Cursor.invalid then 0 else m) = n →
      Iteration (pagedScan pages) options (keys, m) cursor (List.replicate k [] ++
        [keys.filter fun key => selects (fun pattern key => pattern == key) options key]) := by
  induction k with
  | zero =>
    intro n m cursor hpages hn
    have hlast : ¬n < pages := by omega
    have hscan : pagedScan pages (keys, m) cursor options = ((keys, n), Cursor.invalid,
        keys.filter fun key => selects (fun pattern key => pattern == key) options key) := by
      simp only [pagedScan, hn, if_neg hlast]
    exact Iteration.last hscan
  | succ k ih =>
    intro n m cursor hpages hn
    apply Iteration.next (pagedScan_blank hn (by omega) options) (toString_succ_ne n)
    exact ih (n := n + 1) (by omega) (if_neg (toString_succ_ne n))

def pagedServer (pages : ℕ) :
    ScanServer (List String × ℕ) (fun pattern key => pattern == key) where
  keys s := s.1.toFinset
  del s names := (s.1.filter fun key => key ∉ names, s.2)
  scan := pagedScan pages
  keys_del s names := by
    ext key
    simp
  keys_scan s cursor options := by
    unfold pagedScan
    simp only
    split_ifs <;> rfl
  page_sound s cursor options key hkey := by
    unfold pagedScan at hkey
    simp only at hkey
    split_ifs at hkey
    · cases hkey
    · simpa using hkey
    · cases hkey
    · simpa using hkey
  complete s options := by
    refine ⟨_, pagedScan_iteration pages s.1 options (k := pages) (n := 0) (by omega) (by simp), ?_⟩
    intro key hkey hselected
    exact ⟨_, List.mem_append_right _ (List.mem_singleton_self _),
      List.mem_filter.mpr ⟨by simpa using hkey, hselected⟩⟩

theorem seek_pagedServer (pages : ℕ) (pattern : String) (batch n : ℕ) (keys : List String)
    (hn : n ≤ pages) :
    ∃ m cursor, seek (pagedServer pages) pattern batch n (keys, 0) Cursor.invalid =
        ((keys, m), cursor) ∧ (if cursor = Cursor.invalid then 0 else m) = n := by
  induction n with
  | zero => exact ⟨0, Cursor.invalid, rfl, by simp⟩
  | succ n ih =>
    obtain ⟨m, cursor, hseek, hm⟩ := ih (by omega)
    refine ⟨n + 1, toString (n + 1), ?_, if_neg (toString_succ_ne n)⟩
    have hscan : pagedScan pages (keys, m) cursor (scanOptions pattern batch) = _ :=
      pagedScan_blank hm (by omega : n < pages) (scanOptions pattern batch)
    rw [seek_succ, hseek]
    exact Prod.ext (congrArg (fun r => r.1) hscan) (congrArg (fun r => r.2.1) hscan)

theorem blank_pagedServer {pages n : ℕ} (hn : n < pages) (pattern : String) (batch : ℕ)
    (keys : List String) : Blank (pagedServer pages) pattern batch n (keys, 0) := by
  obtain ⟨m, cursor, hseek, hm⟩ := seek_pagedServer pages pattern batch n keys hn.le
  have hpage : pageAt (pagedServer pages) pattern batch n (keys, 0) =
      ((keys, n + 1), toString (n + 1), []) := by
    unfold pageAt
    rw [hseek]
    exact pagedScan_blank hm hn _
  unfold Blank
  rw [hpage]
  exact ⟨rfl, toString_succ_ne n⟩

/-- The scan returns 1001 empty pages before the key: `removex` throws, and the key is still
there. -/
theorem removex_mistakes_long_scan :
    ∃ s', ((pagedServer 1001).client .looping 50).removex "a" 100 1001 (["a"], 0) =
        some (s', .error endlessLoop) ∧
      (pagedServer 1001).keys s' = {"a"} := by
  refine ⟨(pageAt (pagedServer 1001) "a" 100 1000 (["a"], 0)).1, ?_, ?_⟩
  · apply loop_gives_up (pagedServer 1001) .looping 50 "a" 100 0 (n := 1000) rfl _ _ 0
    · intro i hi
      exact blank_pagedServer (by omega) "a" 100 ["a"]
    · exact (blank_pagedServer (by omega) "a" 100 ["a"]).1
  · rw [keys_pageAt]
    rfl

end Example

end Redis

end NetComponents
