import Mathlib.Data.List.DropRight
import NetComponents.Library.Regex

/-!
# Parsing of URLs

`Url` takes a text apart with a regular expression, and `toString` puts it together again from the
parts. The optional parts of the expression are greedy: what is found is the longest scheme, host,
port and path. `matches_of_wellformed` and `wellformed_of_matches` give the parts without the
expression. A `char` is a `Char` of the same number.
-/

namespace NetComponents.Curl

open Library Regex

/-- `std::atoi`. The result for a number that no `int` represents is not defined. -/
structure Atoi where
  toInt : List Char → ℤ
  toInt_digits : ∀ s : List Char, (∀ c ∈ s, c.isDigit = true) → decimal s < 2 ^ 31 →
    toInt s = decimal s

structure Url where
  scheme : List Char := []
  host : List Char := []
  port : List Char := []
  path : List Char := []
  file : List Char := []
  params : List Char := []
  deriving DecidableEq, Repr

namespace Url

variable (atoi : Atoi)

def valid (u : Url) : Bool := u.scheme != [] && u.host != []

def server (u : Url) : List Char :=
  if u.port = [] then u.scheme ++ "://".toList ++ u.host
  else u.scheme ++ "://".toList ++ u.host ++ ":".toList ++ u.port

def target (u : Url) : List Char :=
  if u.path = [] then "/".toList else u.path ++ u.file ++ u.params

/-- `toString` -/
def print (u : Url) : List Char := u.server ++ u.target

def getPort (u : Url) : ℤ := atoi.toInt u.port

def patchPort (u : Url) : Url :=
  if u.getPort atoi ≤ 0 then
    if u.scheme = "https".toList then { u with port := "443".toList }
    else if u.scheme = "ftp".toList then { u with port := "21".toList }
    else { u with port := "80".toList }
  else u

/-- `(?:([^:/?#]+)://)?` -/
def schemePart : Regex Char :=
  opt (seq (group 1 (plus (noneOf ":/?#"))) (literal "://".toList))

/-- `(\w+[^/?#:]*)` -/
def hostPart : Regex Char := group 2 (seq (plus (one isWord)) (star (noneOf "/?#:")))

/-- `(?::(\d+))?` -/
def portPart : Regex Char := opt (seq (literal ":".toList) (group 3 (plus (one Char.isDigit))))

/-- `(/?(?:[^?#/]*/)*)?` -/
def pathPart : Regex Char :=
  opt (group 4 (seq (opt (literal "/".toList))
    (star (seq (star (noneOf "?#/")) (literal "/".toList)))))

/-- `([^?#]*)?` -/
def filePart : Regex Char := opt (group 5 (star (noneOf "?#")))

/-- `(\?(.*))?` -/
def paramsPart : Regex Char := opt (group 6 (seq (literal "?".toList) (group 7 (star (one isAny)))))

def expression : Regex Char :=
  concat [schemePart, hostPart, portPart, pathPart, filePart, paramsPart]

/-- The constructor from a text, which calls `parse`. -/
def parse (src : List Char) : Url :=
  match expression.matches? src with
  | none => {}
  | some m =>
    let u : Url := ⟨m 1, m 2, m 3, m 4, m 5, m 6⟩
    let u := if u.scheme = [] then { u with scheme := "https".toList } else u
    u.patchPort atoi

/-- A letter that is no mark of the parameters or of a fragment. -/
def notMark (c : Char) : Bool := !"?#".toList.contains c

def schemeChar (c : Char) : Bool := !":/?#".toList.contains c

def hostChar (c : Char) : Bool := !"/?#:".toList.contains c

def segmentChar (c : Char) : Bool := !"?#/".toList.contains c

/-- A text that is a path, a file and parameters. -/
def Fits (s : List Char) : Prop :=
  s.dropWhile notMark = [] ∨ ∃ q, s.dropWhile notMark = '?' :: q ∧ ∀ c ∈ q, isAny c = true

/-- What follows the longest path. -/
def behindPath : List Char → List Char
  | [] => []
  | c :: s => if '/' ∈ (c :: s).takeWhile notMark then behindPath s else c :: s

/-- The longest port. -/
def portOf : List Char → List Char
  | ':' :: s => s.takeWhile Char.isDigit
  | _ => []

def behindPort : List Char → List Char
  | ':' :: s => if s.takeWhile Char.isDigit = [] then ':' :: s else s.dropWhile Char.isDigit
  | s => s

/-- The scheme, if there is one, and what follows it. -/
def splitScheme (s : List Char) : List Char × List Char :=
  match s.dropWhile schemeChar with
  | ':' :: '/' :: '/' :: c :: t =>
    if s.takeWhile schemeChar ≠ [] ∧ isWord c = true then (s.takeWhile schemeChar, c :: t)
    else ([], s)
  | _ => ([], s)

section Matching

variable {g : Groups Char} {s : List Char}

theorem fits_append {v : List Char} (hv : ∀ c ∈ v, notMark c = true) (t : List Char) :
    Fits (v ++ t) ↔ Fits t := by
  have hdrop : (v ++ t).dropWhile notMark = t.dropWhile notMark := List.dropWhile_append_of_pos hv
  simp only [Fits, hdrop]

theorem fits_dropWhile {p : Char → Bool} (hp : ∀ c, p c = true → notMark c = true) :
    Fits (s.dropWhile p) ↔ Fits s := by
  have hjoin := List.takeWhile_append_dropWhile (p := p) (l := s)
  conv_rhs => rw [← hjoin]
  exact (fits_append (fun c hc => hp c (List.mem_takeWhile_imp hc)) _).symm

/-- The parameters are the whole rest, from the mark on. -/
theorem run_params (hs : Fits s) (hmark : s.dropWhile notMark = s) (hg : g 6 = []) :
    ∃ m, (concat [paramsPart]).run accept g s = some m ∧ m 6 = s ∧ ∀ i < 6, m i = g i := by
  rcases hs with hnil | ⟨q, hq, hany⟩
  · rw [hmark] at hnil
    subst hnil
    exact ⟨g, rfl, hg, fun i _ => rfl⟩
  · rw [hmark] at hq
    subst hq
    have hend : q.dropWhile isAny = [] := List.dropWhile_eq_nil_iff.mpr hany
    let k : Continuation Char (Groups Char) := fun g' t =>
      accept (Function.update g' 6 (('?' :: q).take (('?' :: q).length - t.length))) t
    have hk : (group 7 (star (one isAny))).run k g q =
        k (Function.update g 7 (q.takeWhile isAny)) [] :=
      run_group_star (by rw [hend]; rfl)
    refine ⟨_, run_opt_some hk, ?_, fun i hi => ?_⟩
    · simp
    · rw [Function.update_of_ne hi.ne, Function.update_of_ne (by omega)]

/-- The file is what comes before the mark. -/
theorem run_file (hs : Fits s) (hg : g 6 = []) :
    ∃ m, (concat [filePart, paramsPart]).run accept g s = some m ∧ m 5 = s.takeWhile notMark ∧
      m 6 = s.dropWhile notMark ∧ ∀ i < 5, m i = g i := by
  obtain ⟨m, hm, hparams, hrest⟩ := run_params (g := Function.update g 5 (s.takeWhile notMark))
    ((fits_dropWhile fun _ h => h).mpr hs) (List.dropWhile_idempotent _ s)
    (by rw [Function.update_of_ne (by decide), hg])
  refine ⟨m, run_opt_some (run_group_star hm), ?_, hparams, fun i hi => ?_⟩
  · rw [hrest 5 (by decide), Function.update_self]
  · rw [hrest i (by omega), Function.update_of_ne hi.ne]

/-- What follows the next `/`. -/
def afterSegment (s : List Char) : Option (List Char) :=
  match s.dropWhile segmentChar with
  | '/' :: t => some t
  | _ => none

theorem afterSegment_cons (c : Char) (s : List Char) :
    afterSegment (c :: s) =
      if c = '/' then some s else if segmentChar c then afterSegment s else none := by
  unfold afterSegment
  split_ifs with hslash hc
  · subst hslash
    rfl
  · rw [List.dropWhile_cons_of_pos hc]
  · rw [List.dropWhile_cons_of_neg hc]
    split
    · rename_i heq
      exact absurd (List.cons.inj heq).1 hslash
    · rfl

theorem notMark_iff (c : Char) : notMark c = true ↔ c = '/' ∨ segmentChar c = true := by
  by_cases hc : c = '/' <;> simp [notMark, segmentChar, hc]

theorem afterSegment_isSome (s : List Char) :
    (afterSegment s).isSome ↔ '/' ∈ s.takeWhile notMark := by
  induction s with
  | nil => simp [afterSegment]
  | cons c s ih =>
    rw [afterSegment_cons, List.takeWhile_cons]
    by_cases hslash : c = '/'
    · subst hslash
      simp [notMark]
    · by_cases hc : segmentChar c = true
      · have hmark := (notMark_iff c).mpr (Or.inr hc)
        simp [hslash, hc, hmark, ih, Ne.symm hslash]
      · have hmark : ¬ notMark c = true := by
          rw [notMark_iff]
          exact not_or.mpr ⟨hslash, hc⟩
        simp [hslash, hc, hmark]

theorem behindPath_of_some {t : List Char} (h : afterSegment s = some t) :
    behindPath s = behindPath t := by
  induction s with
  | nil => cases h
  | cons c s ih =>
    have hslash : '/' ∈ (c :: s).takeWhile notMark := by
      rw [← afterSegment_isSome, h]
      rfl
    rw [behindPath, if_pos hslash]
    rw [afterSegment_cons] at h
    split_ifs at h with hc hseg
    · cases h
      rfl
    · exact ih h

theorem behindPath_of_none (h : afterSegment s = none) : behindPath s = s := by
  cases s with
  | nil => rfl
  | cons c s =>
    rw [behindPath, if_neg]
    rw [← afterSegment_isSome, h]
    simp

theorem length_afterSegment {t : List Char} (h : afterSegment s = some t) :
    t.length < s.length := by
  induction s with
  | nil => cases h
  | cons c s ih =>
    rw [afterSegment_cons] at h
    rw [List.length_cons]
    split_ifs at h with hc hseg
    · cases h
      omega
    · have := ih h
      omega

/-- `[^?#/]*/` -/
def segment : Regex Char := seq (star (noneOf "?#/")) (literal "/".toList)

theorem run_segment (k : Continuation Char (Groups Char)) (g : Groups Char) (s : List Char) :
    segment.run k g s = (afterSegment s).bind (k g) := by
  have hfail : ∀ c t, segmentChar c = true → (literal "/".toList).run k g (c :: t) = none := by
    intro c t hc
    have hne : (c == '/') = false := by
      rw [beq_eq_false_iff_ne]
      rintro rfl
      cases hc
    simp [literal, run, hne]
  have hstar : segment.run k g s = (literal "/".toList).run k g (s.dropWhile segmentChar) :=
    run_star_one_of_none s hfail
  rw [hstar, afterSegment]
  split
  · rename_i t ht
    rw [ht]
    rfl
  · rename_i hne
    cases hrest : s.dropWhile segmentChar with
    | nil => rfl
    | cons c t =>
      have hc : (c == '/') = false := by
        rw [beq_eq_false_iff_ne]
        rintro rfl
        exact hne t hrest
      simp [literal, run, hc]

/-- As many segments are taken as there are. -/
theorem iterate_segment {k : Continuation Char (Groups Char)} {m : Groups Char} {n : ℕ}
    (hn : s.length ≤ n) (h : k g (behindPath s) = some m) :
    iterate segment.run k n g s = some m := by
  induction n generalizing s with
  | zero =>
    have hnil : s = [] := List.length_eq_zero_iff.mp (by omega)
    subst hnil
    exact h
  | succ n ih =>
    rw [iterate_succ, run_segment]
    cases hnext : afterSegment s with
    | none =>
      rw [behindPath_of_none hnext] at h
      rw [Option.bind_none, Option.none_or, h]
    | some t =>
      have hlength := length_afterSegment hnext
      rw [behindPath_of_some hnext] at h
      rw [Option.bind_some, if_pos hlength, ih (by omega) h, Option.some_or]

/-- The path, in front of what is left: it ends with the last `/` before the mark. -/
theorem exists_path (s : List Char) :
    ∃ v, s = v ++ behindPath s ∧ (∀ c ∈ v, notMark c = true) ∧
      (v = [] ↔ '/' ∉ s.takeWhile notMark) := by
  induction s with
  | nil => exact ⟨[], rfl, by simp, by simp⟩
  | cons c s ih =>
    by_cases hslash : '/' ∈ (c :: s).takeWhile notMark
    · obtain ⟨v, hv, hmark, -⟩ := ih
      have hc : notMark c = true := by
        by_contra hc
        simp [hc] at hslash
      refine ⟨c :: v, ?_, List.forall_mem_cons.mpr ⟨hc, hmark⟩, by simp [hslash]⟩
      rw [behindPath, if_pos hslash, List.cons_append, ← hv]
    · exact ⟨[], by rw [behindPath, if_neg hslash, List.nil_append], by simp, by simp [hslash]⟩

/-- A first `/` is taken by itself, which makes no difference. -/
theorem run_segments {k : Continuation Char (Groups Char)} {m : Groups Char}
    (h : k g (behindPath s) = some m) :
    (seq (opt (literal "/".toList)) (star segment)).run k g s = some m := by
  have hstar (t : List Char) (ht : k g (behindPath t) = some m) :
      (star segment).run k g t = some m := iterate_segment le_rfl ht
  change (opt (literal "/".toList)).run ((star segment).run k) g s = some m
  by_cases hslash : ∃ t, s = '/' :: t
  · obtain ⟨t, rfl⟩ := hslash
    have hnext : afterSegment ('/' :: t) = some t := rfl
    rw [behindPath_of_some hnext] at h
    exact run_opt_some (hstar t h)
  · rw [run_opt_none (run_literal_none (fun t ht => hslash ⟨t, ht⟩) _ _)]
    exact hstar s h

/-- The last three parts take a text apart. -/
structure TailOf (q : List Char) (m : Groups Char) : Prop where
  path : q = m 4 ++ behindPath q
  file : m 5 = (behindPath q).takeWhile notMark
  params : m 6 = (behindPath q).dropWhile notMark

theorem run_path (hs : Fits s) (hg : g 6 = []) :
    ∃ m, (concat [pathPart, filePart, paramsPart]).run accept g s = some m ∧ TailOf s m ∧
      ∀ i < 4, m i = g i := by
  obtain ⟨v, hv, hmark, -⟩ := exists_path s
  have hfits : Fits (behindPath s) := by
    rw [hv] at hs
    exact (fits_append hmark _).mp hs
  have htake := take_append_sub v (behindPath s)
  rw [← hv] at htake
  obtain ⟨m, hm, hfile, hparams, hrest⟩ := run_file (g := Function.update g 4 v) hfits
    (by rw [Function.update_of_ne (by decide), hg])
  let k : Continuation Char (Groups Char) := fun g' t =>
    (concat [filePart, paramsPart]).run accept
      (Function.update g' 4 (s.take (s.length - t.length))) t
  have hk : k g (behindPath s) = some m := by
    rw [← hm, ← htake]
  have hpath : (seq (opt (literal "/".toList)) (star segment)).run k g s = some m :=
    run_segments hk
  refine ⟨m, run_opt_some hpath, ⟨?_, hfile, hparams⟩, fun i hi => ?_⟩
  · rw [hrest 4 (by decide), Function.update_self]
    exact hv
  · rw [hrest i (by omega), Function.update_of_ne hi.ne]

theorem notMark_of {p : Char → Bool} (hmark : p '?' = false ∧ p '#' = false) {c : Char}
    (hc : p c = true) : notMark c = true := by
  by_contra h
  have hcases : c = '?' ∨ c = '#' := by simpa [notMark, or_iff_not_imp_left] using h
  rcases hcases with rfl | rfl
  · rw [hmark.1] at hc
    cases hc
  · rw [hmark.2] at hc
    cases hc

theorem fits_behindPort : Fits (behindPort s) ↔ Fits s := by
  unfold behindPort
  split
  · rename_i t
    have hcolon : Fits (':' :: t) ↔ Fits t :=
      fits_append (v := [':']) (List.all_eq_true.mp rfl) t
    split_ifs
    · rfl
    · rw [hcolon]
      exact fits_dropWhile fun c hc => notMark_of (by decide) hc
  · rfl

theorem behindPort_of_none (h : portOf s = []) : behindPort s = s := by
  unfold behindPort
  split
  · exact if_pos h
  · rfl

theorem exists_port (h : portOf s ≠ []) :
    ∃ c t, s = ':' :: c :: t ∧ c.isDigit = true ∧ portOf s = (c :: t).takeWhile Char.isDigit ∧
      behindPort s = (c :: t).dropWhile Char.isDigit := by
  unfold portOf at h
  split at h
  · rename_i t
    cases t with
    | nil => exact absurd rfl h
    | cons c t =>
      have hc : c.isDigit = true := by
        by_contra hc
        simp [hc] at h
      exact ⟨c, t, rfl, hc, rfl, if_neg h⟩
  · exact absurd rfl h

/-- Without digits behind it, a colon is no part of a port. -/
theorem run_port_none (h : portOf s = []) (k : Continuation Char (Groups Char)) :
    (seq (literal ":".toList) (group 3 (plus (one Char.isDigit)))).run k g s = none := by
  change (literal ":".toList).run ((group 3 (plus (one Char.isDigit))).run k) g s = none
  by_cases hcolon : ∃ t, s = ':' :: t
  · obtain ⟨t, rfl⟩ := hcolon
    have hliteral := run_literal_append ":".toList
      ((group 3 (plus (one Char.isDigit))).run k) g t
    refine hliteral.trans ?_
    cases t with
    | nil => rfl
    | cons c t =>
      have hc : c.isDigit = false := by
        by_contra hc
        simp [portOf, hc] at h
      exact run_plus_one_of_none hc _ _ _
  · exact run_literal_none (fun t ht => hcolon ⟨t, ht⟩) _ _

theorem run_port (hs : Fits s) (hg : ∀ i, 3 ≤ i → g i = []) :
    ∃ m, (concat [portPart, pathPart, filePart, paramsPart]).run accept g s = some m ∧
      m 3 = portOf s ∧ TailOf (behindPort s) m ∧ ∀ i < 3, m i = g i := by
  obtain ⟨m, hm, htail, hrest⟩ := run_path (s := behindPort s)
    (g := Function.update g 3 (portOf s)) (fits_behindPort.mpr hs)
    (by rw [Function.update_of_ne (by decide), hg 6 (by decide)])
  refine ⟨m, ?_, by rw [hrest 3 (by decide), Function.update_self], htail, fun i hi => ?_⟩
  · by_cases hport : portOf s = []
    · have hsame : Function.update g 3 (portOf s) = g := by
        rw [hport, ← hg 3 le_rfl, Function.update_eq_self]
      rw [hsame, behindPort_of_none hport] at hm
      exact (run_opt_none (run_port_none hport _)).trans hm
    · obtain ⟨c, t, rfl, hc, hdigits, hbehind⟩ := exists_port hport
      rw [hdigits, hbehind] at hm
      exact run_opt_some (run_group_plus hc hm)
  · rw [hrest i (by omega), Function.update_of_ne hi.ne]

/-- The expression behind the scheme. -/
def authority : Regex Char := concat [hostPart, portPart, pathPart, filePart, paramsPart]

theorem hostChar_of_isWord {c : Char} (hc : isWord c = true) : hostChar c = true := by
  by_contra h
  have hcases : c = '/' ∨ c = '?' ∨ c = '#' ∨ c = ':' := by
    simpa [hostChar, or_iff_not_imp_left] using h
  rcases hcases with rfl | rfl | rfl | rfl <;> cases hc

/-- The host begins with a word, and goes on up to the port, the path or the mark. -/
theorem run_host {c : Char} (hc : isWord c = true) (hs : Fits (c :: s))
    (hg : ∀ i, 2 ≤ i → g i = []) :
    ∃ m, authority.run accept g (c :: s) = some m ∧ m 2 = (c :: s).takeWhile hostChar ∧
      m 3 = portOf ((c :: s).dropWhile hostChar) ∧
      TailOf (behindPort ((c :: s).dropWhile hostChar)) m ∧ m 1 = g 1 := by
  obtain ⟨m, hm, hport, htail, hrest⟩ := run_port (s := (c :: s).dropWhile hostChar)
    (g := Function.update g 2 ((c :: s).takeWhile hostChar))
    ((fits_dropWhile fun c hc => notMark_of (by decide) hc).mpr hs)
    (fun i hi => by rw [Function.update_of_ne (by omega), hg i (by omega)])
  let k : Continuation Char (Groups Char) := fun g' t =>
    (concat [portPart, pathPart, filePart, paramsPart]).run accept
      (Function.update g' 2 ((c :: s).take ((c :: s).length - t.length))) t
  have hk : k g ((c :: s).dropWhile hostChar) = some m := by
    rw [← hm, ← take_dropWhile]
  rw [← dropWhile_dropWhile (fun _ h => hostChar_of_isWord h)] at hk
  have hmore : ((star (noneOf "/?#:")).run k) g ((c :: s).dropWhile isWord) = some m :=
    run_star_one hk
  refine ⟨m, run_plus_one hc hmore, ?_, hport, htail, ?_⟩
  · rw [hrest 2 (by decide), Function.update_self]
  · rw [hrest 1 (by decide), Function.update_of_ne (by decide)]

theorem run_host_eq_some {m : Groups Char}
    (h : authority.run accept g s = some m) :
    ∃ c t, s = c :: t ∧ isWord c = true := by
  cases s with
  | nil => cases h
  | cons c t =>
    refine ⟨c, t, rfl, ?_⟩
    by_contra hc
    have hnone := run_plus_one_of_none (Bool.eq_false_of_not_eq_true hc)
      ((star (noneOf "/?#:")).run fun g' u =>
        (concat [portPart, pathPart, filePart, paramsPart]).run accept
          (Function.update g' 2 ((c :: t).take ((c :: t).length - u.length))) u) g t
    exact Option.some_ne_none m (h.symm.trans hnone)

theorem takeWhile_scheme {v : List Char} (hv : ∀ c ∈ v, schemeChar c = true) (t : List Char) :
    (v ++ "://".toList ++ t).takeWhile schemeChar = v ∧
      (v ++ "://".toList ++ t).dropWhile schemeChar = "://".toList ++ t := by
  rw [List.append_assoc, List.takeWhile_append_of_pos hv, List.dropWhile_append_of_pos hv]
  exact ⟨List.append_nil v, rfl⟩

theorem splitScheme_append {v : List Char} (hne : v ≠ []) (hv : ∀ c ∈ v, schemeChar c = true)
    {c : Char} (hc : isWord c = true) (t : List Char) :
    splitScheme (v ++ "://".toList ++ c :: t) = (v, c :: t) := by
  obtain ⟨htake, hdrop⟩ := takeWhile_scheme hv (c :: t)
  rw [splitScheme, hdrop, htake]
  exact if_pos ⟨hne, hc⟩

theorem run_scheme_eq_some {k : Continuation Char (Groups Char)} {m : Groups Char}
    (h : (seq (group 1 (plus (noneOf ":/?#"))) (literal "://".toList)).run k g s = some m) :
    ∃ v t g', v ≠ [] ∧ (∀ c ∈ v, schemeChar c = true) ∧ s = v ++ "://".toList ++ t ∧
      k g' t = some m := by
  obtain ⟨v, u, g', rfl, hv, hu⟩ := run_eq_some (r := group 1 (plus (noneOf ":/?#"))) h
  obtain ⟨t, rfl, ht⟩ := run_literal_eq_some hu
  refine ⟨v, t, g', ?_, ?_, by rw [List.append_assoc], ht⟩
  · cases hv with
    | group hplus => exact parses_plus_ne_nil hplus
  · exact hv.over (p := fun c => schemeChar c = true) ⟨fun c hc => hc, fun c hc => hc⟩

/-- How a text is split into a scheme and the rest. -/
theorem splitScheme_cases (s : List Char) :
    splitScheme s = ([], s) ∨
      ∃ v c t, v ≠ [] ∧ (∀ c ∈ v, schemeChar c = true) ∧ isWord c = true ∧
        s = v ++ "://".toList ++ c :: t ∧ splitScheme s = (v, c :: t) := by
  unfold splitScheme
  split
  · rename_i c t hdrop
    split_ifs with h
    · refine Or.inr ⟨s.takeWhile schemeChar, c, t, h.1, fun a ha => List.mem_takeWhile_imp ha, h.2,
        ?_, rfl⟩
      have hjoin := List.takeWhile_append_dropWhile (p := schemeChar) (l := s)
      rw [hdrop] at hjoin
      simpa using hjoin.symm
    · exact Or.inl rfl
  · exact Or.inl rfl

/-- A text is matched if what follows the scheme begins with a word and the rest fits. -/
def Wellformed (s : List Char) : Prop :=
  Fits s ∧ ∃ c t, (splitScheme s).2 = c :: t ∧ isWord c = true

/-- What follows the host and the port. -/
def rest (s : List Char) : List Char := behindPort ((splitScheme s).2.dropWhile hostChar)

/-- The groups take a text apart. -/
structure PartsOf (s : List Char) (m : Groups Char) : Prop extends TailOf (rest s) m where
  scheme : m 1 = (splitScheme s).1
  host : m 2 = (splitScheme s).2.takeWhile hostChar
  port : m 3 = portOf ((splitScheme s).2.dropWhile hostChar)

theorem fits_scheme {v : List Char} (hv : ∀ c ∈ v, schemeChar c = true) (t : List Char) :
    Fits (v ++ "://".toList ++ t) ↔ Fits t := by
  apply fits_append
  rw [List.forall_mem_append]
  exact ⟨fun c hc => notMark_of (by decide) (hv c hc), List.all_eq_true.mp rfl⟩

/-- Where no scheme is split off, none is matched: an authority would have to follow it. -/
theorem run_scheme_none (h : splitScheme s = ([], s)) (g : Groups Char) :
    (seq (group 1 (plus (noneOf ":/?#"))) (literal "://".toList)).run (authority.run accept) g s =
      none := by
  rw [Option.eq_none_iff_forall_ne_some]
  intro x hx
  obtain ⟨v, u, g', hne, hv, rfl, hu⟩ := run_scheme_eq_some hx
  obtain ⟨c, t, rfl, hc⟩ := run_host_eq_some hu
  rw [splitScheme_append hne hv hc] at h
  exact hne (congrArg Prod.fst h)

theorem run_scheme {v t : List Char} {k : Continuation Char (Groups Char)} {m : Groups Char}
    (hne : v ≠ []) (hv : ∀ c ∈ v, schemeChar c = true)
    (h : k (Function.update g 1 v) t = some m) :
    (seq (group 1 (plus (noneOf ":/?#"))) (literal "://".toList)).run k g (v ++ "://".toList ++ t) =
      some m := by
  obtain ⟨htake, hdrop⟩ := takeWhile_scheme hv t
  obtain ⟨a, v, rfl⟩ := List.exists_cons_of_ne_nil hne
  have hliteral : (literal "://".toList).run k
      (Function.update g 1 (((a :: v) ++ "://".toList ++ t).takeWhile schemeChar))
      (((a :: v) ++ "://".toList ++ t).dropWhile schemeChar) = some m := by
    rw [htake, hdrop, run_literal_append, h]
  exact run_group_plus (hv a List.mem_cons_self) hliteral

theorem matches_of_wellformed (hs : Wellformed s) :
    ∃ m, expression.matches? s = some m ∧ PartsOf s m := by
  obtain ⟨hfits, c, t, hrest, hc⟩ := hs
  rcases splitScheme_cases s with hnone | ⟨v, c', t', hne, hv, hc', rfl, hsplit⟩
  -- the attempt to match a scheme fails, and the host begins at the front
  · rw [hnone] at hrest
    have hs : s = c :: t := hrest
    obtain ⟨m, hm, hhost, hport, htail, hscheme⟩ := run_host (g := fun _ => []) hc (hs ▸ hfits)
      (fun _ _ => rfl)
    rw [← hs] at hm hhost hport htail
    refine ⟨m, (run_opt_none (run_scheme_none hnone _)).trans hm, ⟨?_, ?_, ?_, ?_⟩⟩
    · rwa [rest, hnone]
    · rw [hnone, hscheme]
    · rw [hnone, hhost]
    · rw [hnone, hport]
  · obtain ⟨m, hm, hhost, hport, htail, hscheme⟩ :=
      run_host (g := Function.update (fun _ => []) 1 v) hc' ((fits_scheme hv _).mp hfits)
        (fun i hi => Function.update_of_ne (by omega) _ _)
    refine ⟨m, run_opt_some (run_scheme hne hv hm), ⟨?_, ?_, ?_, ?_⟩⟩
    · rwa [rest, hsplit]
    · rw [hsplit, hscheme, Function.update_self]
    · rw [hsplit, hhost]
    · rw [hsplit, hport]

theorem run_params_eq_some {m : Groups Char}
    (h : (concat [paramsPart]).run accept g s = some m) :
    s = [] ∨ ∃ q, s = '?' :: q ∧ ∀ c ∈ q, isAny c = true := by
  have hend {g' : Groups Char} {t : List Char} (ht : accept g' t = some m) : t = [] := by
    cases t with
    | nil => rfl
    | cons c t => cases ht
  rcases Option.or_eq_some_iff.mp h with hquery | ⟨-, hempty⟩
  · obtain ⟨u, rfl, hu⟩ := run_literal_eq_some hquery
    obtain ⟨w, t, g', rfl, hw, ht⟩ := run_eq_some (r := group 7 (star (one isAny))) hu
    have hnil : t = [] := hend ht
    refine Or.inr ⟨w ++ t, rfl, ?_⟩
    rw [hnil, List.append_nil]
    exact hw.over (p := fun c => isAny c = true) fun c hc => hc
  · exact Or.inl (hend hempty)

/-- A text that is matched fits: only the parameters have a mark in them. -/
theorem fits_of_matches {m : Groups Char} (h : expression.matches? s = some m) : Fits s := by
  have hsplit := congrFun (congrFun (run_concat_append
    [schemePart, hostPart, portPart, pathPart, filePart] [paramsPart] (accept (α := Char)))
      (fun _ => [])) s
  obtain ⟨w, t, g', rfl, hw, ht⟩ := run_eq_some (hsplit.symm.trans h)
  have hmark : ∀ c ∈ w, notMark c = true := by
    refine hw.over (p := fun c => notMark c = true) ?_
    have hclass {q : Char → Bool} (hq : q '?' = false ∧ q '#' = false) :
        ∀ c, q c = true → notMark c = true := fun _ hc => notMark_of hq hc
    simp only [concat, schemePart, hostPart, portPart, pathPart, filePart, opt, plus, noneOf, Over,
      over_literal, and_true]
    have hliteral {v : List Char} (hv : v.all notMark = true) : ∀ c ∈ v, notMark c = true :=
      List.all_eq_true.mp hv
    refine ⟨⟨⟨hclass ?_, hclass ?_⟩, hliteral ?_⟩, ⟨⟨hclass ?_, hclass ?_⟩, hclass ?_⟩,
      ⟨hliteral ?_, hclass ?_, hclass ?_⟩, ⟨hliteral ?_, hclass ?_, hliteral ?_⟩, hclass ?_⟩ <;>
      decide
  rw [fits_append hmark]
  rcases run_params_eq_some ht with rfl | ⟨q, rfl, hq⟩
  · exact Or.inl rfl
  · exact Or.inr ⟨q, rfl, hq⟩

theorem wellformed_of_matches {m : Groups Char} (h : expression.matches? s = some m) :
    Wellformed s := by
  refine ⟨fits_of_matches h, ?_⟩
  rcases Option.or_eq_some_iff.mp h with hscheme | ⟨-, hnone⟩
  · obtain ⟨v, t, g', hne, hv, rfl, ht⟩ := run_scheme_eq_some hscheme
    obtain ⟨c, t', rfl, hc⟩ := run_host_eq_some ht
    exact ⟨c, t', by rw [splitScheme_append hne hv hc], hc⟩
  · obtain ⟨c, t, rfl, hc⟩ := run_host_eq_some hnone
    rcases splitScheme_cases (c :: t) with hs | ⟨v, c', t', -, -, hc', -, hs⟩
    · exact ⟨c, t, by rw [hs], hc⟩
    · exact ⟨c', t', by rw [hs], hc'⟩

end Matching

end Url

end NetComponents.Curl
